import GbaStation.Memory.Pointers

/-!
# Making a whole process executable (`SVC::ControlProcess`)

`PROCESSOP_SET_MMU_TO_RWX` walks over `vma_map` and reprotects every area that is not free. Each
`Reprotect` merges the area with its neighbours; where the left one absorbs it, the node the
iterator stands on is erased and `it++` reads freed memory.

- `setMMUToRWX_iff`: the walk does what it is for exactly if every area is kept.
-/

namespace GbaStation.Memory

open Segment (Tiles Separated Merges push absorb settle tiles_append tiles_cons separated_append
  separated_cons view absorb_cons tiles_absorb view_append)
open VirtualMemoryArea (base)

def VMAPermission.readWriteExecute : VMAPermission := 7

open VMAPermission (readWriteExecute)

/-- What the operation is for, at one address. -/
def PageAttr.executable (p : PageAttr) : PageAttr :=
  if p.meminfoState ≠ .free then p.reprotected readWriteExecute else p

namespace VMManager

/-- The loop of `PROCESSOP_SET_MMU_TO_RWX`; `none` also where it reads an erased node. -/
def setMMULoop : Nat → OrdMap.Iter → VMManager → Option VMManager
  | _, none, s => some s
  | 0, some _, _ => none
  | fuel + 1, some k, s => do
    let vma ← s.vmaMap.get? k
    let s ← if vma.meminfoState ≠ .free then (reprotect k readWriteExecute s).map Prod.snd
      else some s
    -- `it++` follows the links of the node at `it`
    let _ ← s.vmaMap.get? k
    setMMULoop fuel (s.vmaMap.next k) s

/-- The branch `PROCESSOP_SET_MMU_TO_RWX`. No turn adds an area, so their number bounds the
turns. -/
def setMMUToRWX (s : VMManager) : Option VMManager :=
  setMMULoop (s.vmaMap.length + 1) (s.vmaMap.head?.map Prod.fst) s

/-- Everything of `s` that is not free is executable in `s'`; the rest is as before, and the
areas are merged. -/
structure MadeExecutable (s s' : VMManager) : Prop where
  intact : Intact s'
  separated : Separated (areas s'.vmaMap)
  view : ∀ a, view (areas s'.vmaMap) a =
    (view (areas s.vmaMap) a).map PageAttr.executable

/-- Behind `d`, the area `v` keeps its node: it is not what `d` has become once it is
reprotected itself, unless it was so before its turn. -/
def Kept (d v : VirtualMemoryArea) : Prop :=
  d.meminfoState ≠ .free →
    (reprotected readWriteExecute d).Mergeable (reprotected readWriteExecute v) →
      v.permissions = readWriteExecute

/-! ## One turn -/

section Turn

variable {xs ys : List VirtualMemoryArea} {v p : VirtualMemoryArea} {fuel : Nat}

theorem merges_absorb (p v : VirtualMemoryArea) (ys : List VirtualMemoryArea) :
    Merges p (absorb v ys).1 ↔ Merges p v := by
  cases ys with
  | nil => rfl
  | cons n ys =>
    rw [absorb_cons]
    split_ifs
    · exact Segment.merges_glue_right p v n
    · rfl

theorem base_absorb (v : VirtualMemoryArea) (ys : List VirtualMemoryArea) :
    (absorb v ys).1.base = v.base ∧ (absorb v ys).1.permissions = v.permissions := by
  cases ys with
  | nil => exact ⟨rfl, rfl⟩
  | cons n ys =>
    rw [absorb_cons]
    split_ifs <;> exact ⟨rfl, rfl⟩

theorem length_absorb (v : VirtualMemoryArea) (ys : List VirtualMemoryArea) :
    (absorb v ys).2.length ≤ ys.length := by
  cases ys with
  | nil => exact Nat.le_refl _
  | cons n ys =>
    rw [absorb_cons]
    split_ifs
    · exact Nat.le_succ _
    · exact Nat.le_refl _

theorem setMMULoop_free (h : Tiles 0 (xs ++ v :: ys) maxAddress) (hv : v.meminfoState = .free) :
    setMMULoop (fuel + 1) (some v.base) ⟨keyed (xs ++ v :: ys), false⟩ =
      setMMULoop fuel (ys.head?.map base) ⟨keyed (xs ++ v :: ys), false⟩ := by
  rw [setMMULoop]
  simp only [get?_keyed h, Option.bind_eq_bind, Option.bind_some, hv, ne_eq, not_true_eq_false,
    if_false, next_keyed h]

/-- A turn at an area that is not free, up to `it++`. -/
theorem setMMULoop_reprotect (h : Tiles 0 (xs ++ v :: ys) maxAddress)
    (hv : v.meminfoState ≠ .free) {vs : List VirtualMemoryArea}
    (hvs : settle xs (reprotected readWriteExecute v) ys = vs) :
    setMMULoop (fuel + 1) (some v.base) ⟨keyed (xs ++ v :: ys), false⟩ =
      (OrdMap.get? (keyed vs) v.base).bind fun _ =>
        setMMULoop fuel (OrdMap.next (keyed vs) v.base) ⟨keyed vs, false⟩ := by
  obtain ⟨zs, l, hpush, hupd⟩ := updateVMA_keyed (reprotected_update readWriteExecute) h
  have hmap : zs ++ l :: (absorb (reprotected readWriteExecute v) ys).2 = vs := by
    rw [← hvs, settle, hpush, List.append_assoc]
    rfl
  rw [setMMULoop]
  simp only [get?_keyed h, Option.bind_eq_bind, Option.bind_some, if_pos hv, reprotect, hupd, hmap]
  rfl

/-- The left neighbour absorbs the area, and `it++` reads an erased node. -/
theorem setMMULoop_erased (h : Tiles 0 (xs ++ p :: v :: ys) maxAddress)
    (hv : v.meminfoState ≠ .free) (hm : Merges p (reprotected readWriteExecute v)) :
    setMMULoop (fuel + 1) (some v.base) ⟨keyed (xs ++ p :: v :: ys), false⟩ = none := by
  have hsplit : xs ++ p :: v :: ys = (xs ++ [p]) ++ v :: ys := by simp
  rw [hsplit] at h ⊢
  have hm' := (merges_absorb p (reprotected readWriteExecute v) ys).mpr hm
  rw [setMMULoop_reprotect h hv rfl, settle, Segment.push_concat, if_pos hm', keyed_append]
  -- the areas left of `v` begin below it, those right of it above
  obtain ⟨hbelow, -⟩ := focus h
  have hleft : OrdMap.Below (keyed (xs ++
      [Segment.glue p (absorb (reprotected readWriteExecute v) ys).1])) v.base := by
    rw [below_keyed_iff] at hbelow ⊢
    simp only [List.forall_mem_append, List.forall_mem_singleton] at hbelow ⊢
    exact hbelow
  have htiles := tiles_absorb (tiles_upd (reprotected_update readWriteExecute) h)
  obtain ⟨-, hright, -⟩ := focus htiles
  have hbase : (absorb (reprotected readWriteExecute v) ys).1.base = v.base := (base_absorb _ ys).1
  rw [hbase] at hright
  rw [OrdMap.get?_below hleft, OrdMap.get?_above hright, Option.bind_none]

/-- The area keeps its node, and the walk goes on behind what it has absorbed. -/
theorem setMMULoop_kept (fuel : Nat) (h : Tiles 0 (xs ++ v :: ys) maxAddress)
    (hv : v.meminfoState ≠ .free)
    (hm : ∀ p ∈ xs.getLast?, ¬ Merges p (reprotected readWriteExecute v))
    {c : VirtualMemoryArea} {rest : List VirtualMemoryArea}
    (hc : absorb (reprotected readWriteExecute v) ys = (c, rest)) :
    settle xs (reprotected readWriteExecute v) ys = xs ++ c :: rest ∧
      setMMULoop (fuel + 1) (some v.base) ⟨keyed (xs ++ v :: ys), false⟩ =
        setMMULoop fuel (rest.head?.map base)
          ⟨keyed (xs ++ c :: rest), false⟩ := by
  have hbase : c.base = v.base := by
    have := (base_absorb (reprotected readWriteExecute v) ys).1
    rwa [hc] at this
  have hsettle : settle xs (reprotected readWriteExecute v) ys = xs ++ c :: rest := by
    rw [settle, hc]
    rcases List.eq_nil_or_concat xs with rfl | ⟨zs, p, rfl⟩
    · rfl
    · rw [List.concat_eq_append] at hm ⊢
      have hp : ¬ Merges p c := by
        have := merges_absorb p (reprotected readWriteExecute v) ys
        rw [hc] at this
        exact fun hpc => hm p (by simp) (this.mp hpc)
      rw [Segment.push_concat, if_neg hp]
      simp
  have htiles : Tiles 0 (xs ++ c :: rest) maxAddress := by
    have := tiles_absorb (tiles_upd (reprotected_update readWriteExecute) h)
    rwa [hc] at this
  refine ⟨hsettle, ?_⟩
  rw [setMMULoop_reprotect h hv hsettle, ← hbase, get?_keyed htiles, Option.bind_some,
    next_keyed htiles]

/-- A turn changes nothing about what is to come of an address. -/
theorem view_turn (h : Tiles 0 (xs ++ v :: ys) maxAddress) (hv : v.meminfoState ≠ .free)
    (a : Nat) :
    (view (settle xs (reprotected readWriteExecute v) ys) a).map PageAttr.executable =
      (view (xs ++ v :: ys) a).map PageAttr.executable := by
  have hu := reprotected_update readWriteExecute
  have hexec : ∀ q ∈ view [v] a, (q.reprotected readWriteExecute).executable =
      q.executable := by
    intro q hq
    rw [Segment.view_singleton] at hq
    split_ifs at hq
    · obtain rfl := Option.some.inj hq
      simp only [VirtualMemoryArea.attr_def, PageAttr.executable, PageAttr.reprotected,
        VirtualMemoryArea.pageAttr, ne_eq, hv, not_false_eq_true, if_true]
    · cases hq
  rw [Segment.view_settle (tiles_upd hu h), view_append, view_append,
    ← List.singleton_append, view_append, ← List.singleton_append (l := ys),
    view_append, hu.view_upd]
  simp only [Option.map_or, Option.map_map]
  congr 2
  exact Option.map_congr hexec

end Turn

/-! ## The whole walk -/

/-- An area that continues one already reprotected is not kept, and the other way round. -/
theorem kept_iff_not_merges {p v : VirtualMemoryArea}
    (hp : p.meminfoState ≠ .free → p.permissions = readWriteExecute)
    (hv : v.meminfoState ≠ .free) (hsep : ¬ Merges p v) :
    Kept p v ↔ ¬ Merges p (reprotected readWriteExecute v) := by
  constructor
  · intro hk hm
    have hpf : p.meminfoState ≠ .free := by
      obtain ⟨-, hst, -⟩ := id hm
      exact fun hf => hv (hst.symm.trans hf)
    have hvp := hk hpf ⟨rfl, hm.2⟩
    exact hsep ⟨(hp hpf).trans hvp.symm, hm.2⟩
  · intro hm hpf hmerge
    exact absurd ⟨hp hpf, hmerge.2⟩ hm

/-- What is kept behind the area once it has absorbed its right neighbour. -/
theorem kept_absorb {v c : VirtualMemoryArea} {ys rest : List VirtualMemoryArea}
    (hc : absorb (reprotected readWriteExecute v) ys = (c, rest)) :
    (c :: rest).IsChain Kept ↔ (v :: ys).IsChain Kept := by
  cases ys with
  | nil =>
    obtain ⟨rfl, rfl⟩ := Prod.mk.inj hc
    simp
  | cons n ys =>
    rw [absorb_cons] at hc
    split_ifs at hc with hm
    · obtain ⟨rfl, rfl⟩ := Prod.mk.inj hc
      obtain ⟨hperm, hst, hrest⟩ := id hm
      have hn : reprotected readWriteExecute n = n := by
        rw [reprotected, show readWriteExecute = n.permissions from hperm]
      have hvn : Kept v n := fun _ _ => hperm.symm
      have hnc : ∀ x, Kept (Segment.glue (reprotected readWriteExecute v) n) x ↔ Kept n x := by
        intro x
        have hmerge := Segment.merges_glue_left _ n (reprotected readWriteExecute x) hm
        have hfree : v.meminfoState = n.meminfoState := hst
        unfold Kept
        rw [hn, ← hfree]
        exact imp_congr_right fun _ => imp_congr hmerge Iff.rfl
      simp only [List.isChain_cons, hnc, List.head?_cons, Option.mem_some_iff, forall_eq', hvn,
        true_and]
    · obtain ⟨rfl, rfl⟩ := Prod.mk.inj hc
      simp only [List.isChain_cons]
      rfl

theorem madeExecutable_congr {s₁ s₂ : VMManager}
    (h : ∀ a, (view (areas s₁.vmaMap) a).map PageAttr.executable =
      (view (areas s₂.vmaMap) a).map PageAttr.executable) (s' : VMManager) :
    MadeExecutable s₁ s' ↔ MadeExecutable s₂ s' :=
  ⟨fun m => ⟨m.intact, m.separated, fun a => (m.view a).trans (h a)⟩,
    fun m => ⟨m.intact, m.separated, fun a => (m.view a).trans (h a).symm⟩⟩

theorem view_executable {vs : List VirtualMemoryArea}
    (h : ∀ d ∈ vs, d.meminfoState ≠ .free → d.permissions = readWriteExecute) (a : Nat) :
    view vs a = (view vs a).map PageAttr.executable := by
  induction vs with
  | nil => rfl
  | cons v vs ih =>
    rw [Segment.view_cons]
    split_ifs
    · have hv := h v (by simp)
      rw [Option.map_some, PageAttr.executable]
      split_ifs with hf
      · rw [PageAttr.reprotected, ← hv hf]
        rfl
      · rfl
    · exact ih fun d hd => h d (List.mem_cons_of_mem v hd)

/-- The walk from an area on, with the areas in front of it done. -/
theorem setMMULoop_iff (fuel : Nat) (done todo : List VirtualMemoryArea)
    (ht : Tiles 0 (done ++ todo) maxAddress) (hs : Separated (done ++ todo))
    (hdone : ∀ d ∈ done, d.meminfoState ≠ .free → d.permissions = readWriteExecute)
    (hfuel : todo.length < fuel) :
    (∃ s', setMMULoop fuel (todo.head?.map base)
        ⟨keyed (done ++ todo), false⟩ = some s' ∧
          MadeExecutable ⟨keyed (done ++ todo), false⟩ s') ↔
      (∀ p ∈ done.getLast?, ∀ v ∈ todo.head?, Kept p v) ∧ todo.IsChain Kept := by
  induction fuel generalizing done todo with
  | zero => exact absurd hfuel (Nat.not_lt_zero _)
  | succ fuel ih =>
    cases todo with
    | nil =>
      rw [List.append_nil] at ht hs ⊢
      refine iff_of_true ⟨_, rfl, ⟨rfl, keyedByBase_keyed done, ?_⟩, ?_, ?_⟩ (by simp)
      · rwa [areas_keyed]
      · rwa [areas_keyed]
      · rw [areas_keyed]
        exact view_executable hdone
    | cons v todo =>
      obtain ⟨hsd, hst, hbound⟩ := separated_append.mp hs
      have hfuel' : todo.length < fuel := by simpa using hfuel
      have hsplit : ∀ c (rest : List VirtualMemoryArea), done ++ c :: rest = (done ++ [c]) ++ rest :=
        fun c rest => by simp
      simp only [List.head?_cons, Option.map_some, Option.mem_some_iff, forall_eq']
      by_cases hv : v.meminfoState = .free
      · -- the area is passed over, and nothing in front of it that is not free looks like it
        have hkept : ∀ p, Kept p v := fun p hpf hm => absurd (hm.2.1.trans hv) hpf
        rw [setMMULoop_free ht hv]
        rw [hsplit] at ht hs ⊢
        rw [ih (done ++ [v]) todo ht hs ?_ hfuel', List.getLast?_concat, List.isChain_cons]
        · simp [hkept]
        · simp only [List.forall_mem_append, List.forall_mem_singleton]
          exact ⟨hdone, fun hf => absurd hv hf⟩
      by_cases hm : ∃ p ∈ done.getLast?, Merges p (reprotected readWriteExecute v)
      · -- the area in front of it absorbs it
        obtain ⟨p, hp, hpv⟩ := hm
        obtain ⟨zs, rfl⟩ := List.getLast?_eq_some_iff.mp hp
        have hkept := kept_iff_not_merges (hdone p (by simp)) hv (hbound p hp v rfl)
        refine iff_of_false ?_ fun h => hkept.mp (h.1 p hp) hpv
        rintro ⟨s', hrun, -⟩
        rw [List.append_assoc, List.singleton_append] at hrun ht
        rw [setMMULoop_erased ht hv hpv] at hrun
        cases hrun
      · obtain ⟨c, rest, hc⟩ : ∃ c rest, absorb (reprotected readWriteExecute v) todo = (c, rest) :=
          ⟨_, _, rfl⟩
        have hm' : ∀ p ∈ done.getLast?, ¬ Merges p (reprotected readWriteExecute v) :=
          fun p hp hpv => hm ⟨p, hp, hpv⟩
        obtain ⟨hsettle, hturn⟩ := setMMULoop_kept fuel ht hv hm' hc
        have ht' := Segment.tiles_settle (tiles_upd (reprotected_update readWriteExecute) ht)
        have hs' := Segment.separated_settle (c := reprotected readWriteExecute v) hsd
          (separated_cons.mp hst).2
        have hperm : c.permissions = readWriteExecute := by
          have := (base_absorb (reprotected readWriteExecute v) todo).2
          rwa [hc] at this
        have hlen : rest.length ≤ todo.length := by
          have := length_absorb (reprotected readWriteExecute v) todo
          rwa [hc] at this
        rw [hsettle, hsplit] at ht' hs'
        rw [hturn, ← kept_absorb hc, List.isChain_cons]
        have hsame : ∀ s', MadeExecutable ⟨keyed (done ++ v :: todo), false⟩ s' ↔
            MadeExecutable ⟨keyed (done ++ c :: rest), false⟩ s' := fun s' => by
          refine (madeExecutable_congr (fun a => ?_) s').symm
          rw [areas_keyed, areas_keyed, ← hsettle, view_turn ht hv]
        simp only [hsame]
        rw [hsplit, ih (done ++ [c]) rest ht' hs' ?_ (by omega), List.getLast?_concat]
        · have hkept : ∀ p ∈ done.getLast?, Kept p v := fun p hp =>
            (kept_iff_not_merges (hdone p (List.mem_of_getLast? hp)) hv (hbound p hp v rfl)).mpr
              (hm' p hp)
          simp only [Option.mem_some_iff, forall_eq']
          exact (and_iff_right hkept).symm
        · simp only [List.forall_mem_append, List.forall_mem_singleton]
          exact ⟨hdone, fun _ => hperm⟩

/-- `PROCESSOP_SET_MMU_TO_RWX` walks over all areas and makes everything that is not free
executable exactly if no area is erased in its turn. -/
theorem setMMUToRWX_iff {s : VMManager} (h : Intact s) (hs : Separated (areas s.vmaMap)) :
    (∃ s', setMMUToRWX s = some s' ∧ MadeExecutable s s') ↔ (areas s.vmaMap).IsChain Kept := by
  have hmap : s = ⟨keyed ([] ++ areas s.vmaMap), false⟩ := by
    obtain ⟨m, l⟩ := s
    rw [List.nil_append, ← h.keyedByBase.eq_keyed, show l = false from h.isLocked]
  have hrun := setMMULoop_iff ((areas s.vmaMap).length + 1) [] (areas s.vmaMap)
    h.tiles hs (by simp) (Nat.lt_succ_self _)
  rw [← hmap] at hrun
  have hhead : (areas s.vmaMap).head?.map base = s.vmaMap.head?.map Prod.fst := by
    rw [h.keyedByBase.eq_keyed, areas_keyed, keyed_head?]
  unfold setMMUToRWX
  rw [← hhead, show s.vmaMap.length = (areas s.vmaMap).length by simp [areas], hrun]
  simp

/-- Three pages mapped, free memory around them. -/
theorem setMMUToRWX_mapped :
    ∃ s', setMMUToRWX exampleMapped = some s' ∧ MadeExecutable exampleMapped s' := by
  have hareas : areas exampleMapped.vmaMap = [{ size := 0x1000 },
      exampleArea 0x1000 0x3000 VMAPermission.readWrite 0,
      { base := 0x4000, size := maxAddress - 0x4000 }] := areas_keyed _
  refine (setMMUToRWX_iff ⟨rfl, keyedByBase_keyed _, ?_⟩ ?_).mpr ?_
  · rw [hareas]
    exact ⟨rfl, by decide, rfl, by decide, rfl, by decide, rfl⟩
  · rw [hareas]
    simp only [Separated, List.isChain_cons_cons, List.isChain_singleton, and_true]
    exact ⟨by decide, by decide⟩
  · rw [hareas]
    simp only [List.isChain_cons_cons, List.isChain_singleton, and_true, Kept]
    exact ⟨by decide, by decide⟩

/-- A heap whose first page was made read-only: the page behind it becomes like the first, which
absorbs it under the iterator. -/
theorem setMMUToRWX_erases :
    ¬ ∀ s, Intact s → Separated (areas s.vmaMap) →
      ∃ s', setMMUToRWX s = some s' ∧ MadeExecutable s s' := by
  intro hall
  have hareas : areas exampleReprotected.vmaMap = [{ size := 0x1000 },
      exampleArea 0x1000 0x1000 VMAPermission.read 0,
      exampleArea 0x2000 0x2000 VMAPermission.readWrite 0x1000,
      { base := 0x4000, size := maxAddress - 0x4000 }] := areas_keyed _
  obtain ⟨s', hrun, -⟩ := hall exampleReprotected ⟨rfl, keyedByBase_keyed _, by
    rw [hareas]
    exact ⟨rfl, by decide, rfl, by decide, rfl, by decide, rfl, by decide, rfl⟩⟩ (by
    rw [hareas]
    simp only [Separated, List.isChain_cons_cons, List.isChain_singleton, and_true]
    exact ⟨by decide, by decide, by decide⟩)
  have hnone : setMMUToRWX exampleReprotected = none := by decide +kernel
  rw [hnone] at hrun
  cases hrun

end VMManager

end GbaStation.Memory
