import GbaStation.Memory.Calls
import Mathlib.Data.List.TakeWhile

/-!
# Memory queries (`SVC::QueryProcessMemory` in `core/hle/kernel/svc.cpp`)

A query answers with the run of an address: the areas around it with its permissions and state,
whatever backs them. `none` is the move of an iterator before the first one, or the dereference of
`end()`.

- `queryProcessMemory_spec`: queries from zero on (`Sweep`) see each run once.
-/

namespace GbaStation.Memory

open Kernel (Result)
open Segment (Tiles Covers tiles_append)
open VirtualMemoryArea (base)

structure MemoryInfo where
  baseAddress : Nat
  size : Nat
  permission : VMAPermission
  state : MemoryState
deriving DecidableEq, Repr

structure PageInfo where
  flags : Nat
deriving DecidableEq, Repr

namespace VMManager

/-- `std::find_if` from the iterator at `k` on. -/
def findIf (m : VMAMap) (k : Nat) (p : VirtualMemoryArea → Bool) : OrdMap.Iter :=
  ((m.dropWhile fun e => decide (e.1 < k)).find? fun e => p e.2).map Prod.fst

/-- `std::find_if` from the reverse iterator at `k` on, which refers to the area before. A reverse
iterator is its base, the iterator behind what it refers to. -/
def findIfReverse (m : VMAMap) (k : Nat) (p : VirtualMemoryArea → Bool) : OrdMap.Iter :=
  match (m.takeWhile fun e => decide (e.1 < k)).reverse.find? fun e => p e.2 with
  | some e => m.next e.1
  | none => m.head?.map Prod.fst

/-- The lambda `mismatch`. -/
def mismatch (vma v : VirtualMemoryArea) : Bool :=
  v.permissions != vma.permissions || v.meminfoState != vma.meminfoState

/-- `QueryProcessMemory` of the process of a handle, and `QueryMemory` of the current one. -/
def queryProcessMemory (process : Option VMManager) (addr : Nat) :
    Option (Except Result (MemoryInfo × PageInfo)) :=
  match process with
  | none => some (.error Result.invalidHandle)
  | some s =>
    match findVMA s.vmaMap addr with
    | none => some (.error Result.invalidAddress)
    | some k => do
      let vma ← s.vmaMap.get? k
      -- `--lower` refers to the area at the base
      let lower ← s.vmaMap.get? (← findIfReverse s.vmaMap k (mismatch vma))
      let upper ← s.vmaMap.get? (← s.vmaMap.prev (findIf s.vmaMap k (mismatch vma)))
      some (.ok ({
        baseAddress := lower.base
        size := sub32 (add32 upper.base upper.size) lower.base
        permission := vma.permissions
        state := vma.meminfoState }, { flags := 0 }))

/-- The permissions and the state of an address of the space. -/
def kindAt (s : VMManager) (a : Nat) : Option (VMAPermission × MemoryState) :=
  (Segment.view (areas s.vmaMap) a).map fun p => (p.permissions, p.meminfoState)

/-- The run of an address: what lies before and behind it is of another kind, if there is any. -/
structure IsRun (s : VMManager) (addr : Nat) (i : MemoryInfo) : Prop where
  contains : i.baseAddress ≤ addr ∧ addr < i.baseAddress + i.size
  same : ∀ a, i.baseAddress ≤ a → a < i.baseAddress + i.size →
    s.kindAt a = some (i.permission, i.state)
  before : 0 < i.baseAddress → s.kindAt (i.baseAddress - 1) ≠ some (i.permission, i.state)
  behind : s.kindAt (i.baseAddress + i.size) ≠ some (i.permission, i.state)

/-- A guest that queries an address and then what lies behind the answer, until it is refused. -/
inductive Sweep (s : VMManager) : Nat → List MemoryInfo → Prop
  | refused {addr : Nat} :
      queryProcessMemory (some s) addr = some (.error Result.invalidAddress) → Sweep s addr []
  | answered {addr : Nat} {i : MemoryInfo} {page : PageInfo} {is : List MemoryInfo} :
      queryProcessMemory (some s) addr = some (.ok (i, page)) →
      Sweep s (add32 i.baseAddress i.size) is → Sweep s addr (i :: is)

variable {s : VMManager} {l xs ys rest : List VirtualMemoryArea} {v : VirtualMemoryArea}
  {addr k lo hi : Nat} {i j : MemoryInfo} {p : VirtualMemoryArea → Bool}

/-! ## The two searches -/

/-- A list in front of the first element that is searched for, and from it on. -/
theorem exists_found {α : Type*} (p : α → Bool) (zs : List α) : ∃ r t, zs = r ++ t ∧
    (∀ z ∈ r, p z = false) ∧ (∀ z ∈ t.head?, p z = true) ∧ zs.find? p = t.head? := by
  refine ⟨zs.takeWhile (! p ·), zs.dropWhile (! p ·), List.takeWhile_append_dropWhile.symm,
    fun z hz => by simpa using List.mem_takeWhile_imp hz, ?_, zs.find?_eq_head?_dropWhile_not p⟩
  rw [← zs.find?_eq_head?_dropWhile_not p]
  exact fun z hz => List.find?_some hz

theorem findIf_keyed (h : Tiles 0 (xs ++ v :: ys) maxAddress) :
    findIf (keyed (xs ++ v :: ys)) v.base p = ((v :: ys).find? p).map base := by
  obtain ⟨hb, -⟩ := focus h
  rw [findIf, keyed_append, OrdMap.dropWhile_below hb (by simp), keyed, List.find?_map,
    Option.map_map]
  rfl

theorem findIfReverse_keyed (h : Tiles 0 (l ++ (xs ++ v :: ys)) maxAddress)
    (hfind : (l ++ xs).reverse.find? p = l.getLast?) :
    findIfReverse (keyed (l ++ (xs ++ v :: ys))) v.base p =
      (xs ++ v :: ys).head?.map base := by
  rw [← List.append_assoc] at h
  obtain ⟨hb, -⟩ := focus h
  rw [findIfReverse, ← List.append_assoc, keyed_append, OrdMap.takeWhile_below hb (by simp), keyed,
    ← List.map_reverse, List.find?_map]
  have hfound : (l ++ xs).reverse.find? ((fun e : Nat × VirtualMemoryArea => p e.2) ∘
      fun v => (v.base, v)) = l.getLast? := hfind
  rw [hfound, ← keyed, ← keyed_append, List.append_assoc]
  rcases List.eq_nil_or_concat l with rfl | ⟨l, e, rfl⟩
  · exact keyed_head? _
  · simp only [List.concat_eq_append, List.append_assoc, List.singleton_append] at h ⊢
    rw [List.getLast?_append, List.getLast?_singleton, Option.some_or, Option.map_some]
    exact next_keyed h

theorem kindAt_eq (h : Tiles 0 (xs ++ v :: ys) maxAddress) (hs : areas s.vmaMap = xs ++ v :: ys)
    (ha : Covers v addr) : s.kindAt addr = some (v.permissions, v.meminfoState) := by
  rw [kindAt, hs, h.view_eq ha]
  rfl

theorem mismatch_iff {w : VirtualMemoryArea} : mismatch v w = true ↔
    (w.permissions, w.meminfoState) ≠ (v.permissions, v.meminfoState) := by
  simp [mismatch, imp_iff_not_or]

/-! ## One query -/

/-- Areas without mismatch between two that have one, or the ends of the space, are a run. -/
theorem isRun_of_parts (ht : Tiles 0 (l ++ xs ++ rest) maxAddress)
    (hs : areas s.vmaMap = l ++ xs ++ rest) (hl : Tiles 0 l i.baseAddress)
    (hxs : Tiles i.baseAddress xs (i.baseAddress + i.size))
    (hrest : Tiles (i.baseAddress + i.size) rest maxAddress)
    (hv : (v.permissions, v.meminfoState) = (i.permission, i.state))
    (ha : i.baseAddress ≤ addr ∧ addr < i.baseAddress + i.size)
    (hsame : ∀ w ∈ xs, mismatch v w = false) (hlast : ∀ w ∈ l.getLast?, mismatch v w = true)
    (hnext : ∀ w ∈ rest.head?, mismatch v w = true) : s.IsRun addr i := by
  simp only [mismatch_iff, ← Bool.not_eq_true, not_not, hv] at hsame hlast hnext
  refine ⟨ha, fun a hge hlt => ?_, fun hpos => ?_, ?_⟩
  · obtain ⟨as, w, bs, rfl, hw⟩ := hxs.exists_cover hge hlt
    rw [@kindAt_eq _ (l ++ as) (bs ++ rest) w _ (by simpa using ht) (by simpa using hs) hw,
      hsame w (by simp)]
  · rcases List.eq_nil_or_concat l with rfl | ⟨l, w, rfl⟩
    · exact absurd hl hpos.ne
    · rw [List.concat_eq_append] at *
      obtain ⟨mid, -, hbase, hsize, hend⟩ := tiles_append.mp hl
      rw [@kindAt_eq _ l (xs ++ rest) w _ (by simpa using ht) (by simpa using hs)]
      · exact fun heq => hlast w (by simp) (Option.some.inj heq)
      · have hend : mid + Segment.size w = i.baseAddress := hend
        exact ⟨by omega, by omega⟩
  · cases rest with
    | nil =>
      rw [kindAt, hs, ht.view_eq_none (.inr (Nat.le_of_eq (Eq.symm hrest)))]
      exact nofun
    | cons w rest =>
      obtain ⟨hbase, hsize, -⟩ := hrest
      rw [@kindAt_eq _ (l ++ xs) rest w _ ht hs ⟨by omega, by omega⟩]
      exact fun heq => hnext w rfl (Option.some.inj heq)

theorem queryProcessMemory_refused (h : maxAddress ≤ addr) :
    queryProcessMemory (some s) addr = some (.error Result.invalidAddress) := by
  rw [queryProcessMemory, findVMA_none s.vmaMap h]

/-- The last area in front of an iterator. -/
theorem prev_behind (h : Tiles 0 (xs ++ v :: ys) maxAddress) :
    OrdMap.prev (keyed (xs ++ v :: ys)) (ys.head?.map base) = some v.base := by
  cases ys with
  | nil => exact keyed_getLast? xs v
  | cons n ys =>
    have hsplit : xs ++ v :: n :: ys = (xs ++ [v]) ++ n :: ys := by simp
    rw [hsplit] at h ⊢
    exact (prev_keyed h).trans (by simp)

theorem queryProcessMemory_run (hk : KeyedByBase s.vmaMap)
    (ht : Tiles 0 (areas s.vmaMap) maxAddress) (ha : addr < maxAddress) :
    ∃ i, queryProcessMemory (some s) addr = some (.ok (i, ⟨0⟩)) ∧ s.IsRun addr i := by
  obtain ⟨xs, v, ys, hvs, hv, hfind⟩ := findVMA_cover ht ha
  obtain ⟨r, t, hr, hsame, hlast, hlower⟩ := exists_found (mismatch v) xs.reverse
  obtain ⟨r', t', rfl, hsame', hnext, hupper⟩ := exists_found (mismatch v) ys
  obtain rfl : xs = t.reverse ++ r.reverse := by
    rw [← List.reverse_append, ← hr, List.reverse_reverse]
  obtain ⟨first, run, hfirst⟩ : ∃ first run, r.reverse ++ v :: r' = first :: run :=
    List.exists_cons_of_ne_nil (by simp)
  obtain ⟨init, last, hinit⟩ : ∃ init last, r.reverse ++ v :: r' = init ++ [last] :=
    ⟨_, _, (List.dropLast_concat_getLast (by simp)).symm⟩
  have hself : mismatch v v = false := by simp [mismatch]
  -- the areas, seen from `v`, as three parts, and from both ends of the one in the middle
  have hparts : areas s.vmaMap = t.reverse ++ (r.reverse ++ v :: r') ++ t' := by simp [hvs]
  have hpre : areas s.vmaMap = t.reverse ++ first :: (run ++ t') := by simp [hparts, hfirst]
  have hpost : areas s.vmaMap = (t.reverse ++ init) ++ last :: t' := by simp [hparts, hinit]
  have hm := hk.eq_keyed
  rw [← hm] at hfind
  have hget {as bs : List VirtualMemoryArea} {w : VirtualMemoryArea}
      (hw : areas s.vmaMap = as ++ w :: bs) : s.vmaMap.get? w.base = some w := by
    rw [hm, hw]
    exact get?_keyed (hw ▸ ht)
  have hbefore : findIfReverse s.vmaMap v.base (mismatch v) = some first.base := by
    have hareas : areas s.vmaMap = t.reverse ++ (r.reverse ++ v :: (r' ++ t')) := by simp [hvs]
    rw [hm, hareas, findIfReverse_keyed (hareas ▸ ht) (by simpa using hlower), ← List.cons_append,
      ← List.append_assoc, hfirst]
    rfl
  have hbehind : findIf s.vmaMap v.base (mismatch v) = t'.head?.map base := by
    rw [hm, hvs, findIf_keyed (hvs ▸ ht), List.find?_cons_of_neg (by simp [hself]), hupper]
  have hprev : s.vmaMap.prev (t'.head?.map base) = some last.base := by
    rw [hm, hpost]
    exact prev_behind (hpost ▸ ht)
  obtain ⟨hi, hleft, hrest⟩ := tiles_append.mp (hparts ▸ ht)
  obtain ⟨lo, hl, hrun⟩ := tiles_append.mp hleft
  obtain rfl : first.base = lo := (hfirst ▸ hrun).1
  obtain ⟨mid, -, rfl, -, rfl⟩ := tiles_append.mp (hinit ▸ hrun)
  refine ⟨⟨first.base, sub32 (add32 last.base last.size) first.base, v.permissions, v.meminfoState⟩,
    ?_, ?_⟩
  · simp only [queryProcessMemory, hfind, hget hvs, hbefore, hget hpre, hbehind, hprev,
      hget hpost, Option.bind_eq_bind, Option.bind_some]
  · have hend : first.base + sub32 (add32 last.base last.size) first.base =
        last.base + last.size := by
      have hle : last.base + last.size ≤ maxAddress := hrest.le
      have hge : first.base ≤ last.base + last.size := hrun.le
      unfold maxAddress at hle
      rw [add32_eq (by omega), sub32_eq hge (by omega)]
      exact Nat.add_sub_of_le hge
    refine isRun_of_parts (hparts ▸ ht) hparts hl (hend ▸ hrun) (hend ▸ hrest) rfl ?_ ?_ ?_ hnext
    · obtain ⟨hge, -, hle⟩ := hrun.mem_bounds (v := v) (by simp)
      rw [hend]
      exact ⟨Nat.le_trans hge hv.1, Nat.lt_of_lt_of_le hv.2 hle⟩
    · simp only [List.mem_append, List.mem_reverse, List.mem_cons]
      rintro w (hw | rfl | hw)
      · exact hsame w hw
      · exact hself
      · exact hsame' w hw
    · rwa [List.getLast?_reverse]

/-! ## All queries -/

theorem IsRun.le (h : s.IsRun addr i) (ht : Tiles 0 (areas s.vmaMap) maxAddress) :
    i.baseAddress + i.size ≤ maxAddress := by
  by_contra hlt
  have hkind := h.same (i.baseAddress + i.size - 1) (by have := h.contains; omega)
    (by have := h.contains; omega)
  rw [kindAt, ht.view_eq_none (.inr (by omega))] at hkind
  cases hkind

/-- An address has one run. -/
theorem IsRun.unique (h : s.IsRun addr i) (h' : s.IsRun addr j) : i = j := by
  obtain ⟨hi, hsame, hbefore, hbehind⟩ := h
  obtain ⟨hj, hsame', hbefore', hbehind'⟩ := h'
  have hkind := (hsame addr hi.1 hi.2).symm.trans (hsame' addr hj.1 hj.2)
  rw [hkind] at hsame hbefore hbehind
  obtain ⟨hp, hs⟩ := Prod.mk.inj (Option.some.inj hkind)
  have hbase : i.baseAddress = j.baseAddress := by
    rcases Nat.lt_trichotomy i.baseAddress j.baseAddress with hlt | heq | hlt
    · exact absurd (hsame _ (by omega) (by omega)) (hbefore' (by omega))
    · exact heq
    · exact absurd (hsame' _ (by omega) (by omega)) (hbefore (by omega))
  have hsize : i.size = j.size := by
    rcases Nat.lt_trichotomy i.size j.size with hlt | heq | hlt
    · exact absurd (hsame' _ (by omega) (by omega)) hbehind
    · exact heq
    · exact absurd (hsame _ (by omega) (by omega)) hbehind'
  obtain ⟨base, size, permission, state⟩ := i
  exact (MemoryInfo.mk.injEq ..).mpr ⟨hbase, hsize, hp, hs⟩

/-- From an address where a run begins, queries see it and all runs behind it. -/
theorem exists_sweep (hk : KeyedByBase s.vmaMap) (ht : Tiles 0 (areas s.vmaMap) maxAddress) {n : Nat}
    (hn : addr + n = maxAddress) (hbegin : 0 < addr → s.kindAt (addr - 1) ≠ s.kindAt addr) :
    ∃ runs, s.Sweep addr runs ∧ runs.Nodup ∧
      ∀ i, i ∈ runs ↔ ∃ a, addr ≤ a ∧ a < maxAddress ∧ s.IsRun a i := by
  induction n using Nat.strong_induction_on generalizing addr with
  | _ n ih =>
    rcases Nat.eq_zero_or_pos n with rfl | hpos
    · refine ⟨[], .refused (queryProcessMemory_refused (Nat.le_of_eq hn.symm)), List.nodup_nil,
        fun i => iff_of_false List.not_mem_nil ?_⟩
      rintro ⟨a, hge, hlt, -⟩
      omega
    obtain ⟨i, hquery, hrun⟩ := queryProcessMemory_run hk ht (show addr < maxAddress by omega)
    have hle := hrun.le ht
    obtain ⟨hge, hlt⟩ := hrun.contains
    have hbase : i.baseAddress = addr := by
      by_contra hne
      refine hbegin (by omega) ?_
      rw [hrun.same _ (by omega) (by omega), hrun.same _ hge hlt]
    obtain ⟨runs, hsweep, hnodup, hmem⟩ := @ih (maxAddress - (i.baseAddress + i.size)) (by omega)
      (i.baseAddress + i.size) (by omega) fun _ => by
        rw [hrun.same _ (by omega) (by omega)]
        exact hrun.behind.symm
    refine ⟨i :: runs, .answered hquery ?_, List.nodup_cons.mpr ⟨fun hi => ?_, hnodup⟩, fun j => ?_⟩
    · rwa [add32_eq (Nat.lt_of_le_of_lt hle (by decide))]
    · obtain ⟨a, hbehind, -, hagain⟩ := (hmem i).mp hi
      exact absurd hagain.contains.2 (Nat.not_lt.mpr hbehind)
    · rw [List.mem_cons, hmem]
      constructor
      · rintro (rfl | ⟨a, hbehind, ha, hj⟩)
        · exact ⟨addr, Nat.le_refl _, by omega, hrun⟩
        · exact ⟨a, by omega, ha, hj⟩
      · rintro ⟨a, hfrom, ha, hj⟩
        rcases Nat.lt_or_ge a (i.baseAddress + i.size) with hin | hbehind
        · have hrun' : s.IsRun a i := { hrun with contains := ⟨by omega, hin⟩ }
          exact .inl (hj.unique hrun')
        · exact .inr ⟨a, hbehind, ha, hj⟩

/-- **Queries report maximal runs.** An address is refused exactly from the end of the space on, and
answered with its run otherwise; a guest that starts at zero is refused in the end, and has seen
each run once. -/
theorem queryProcessMemory_spec (s : VMManager) (hk : KeyedByBase s.vmaMap)
    (ht : Tiles 0 (areas s.vmaMap) maxAddress) :
    (∀ addr, if maxAddress ≤ addr
      then queryProcessMemory (some s) addr = some (.error Result.invalidAddress)
      else ∃ i, queryProcessMemory (some s) addr = some (.ok (i, ⟨0⟩)) ∧ s.IsRun addr i) ∧
    ∃ runs, s.Sweep 0 runs ∧ runs.Nodup ∧
      ∀ i, i ∈ runs ↔ ∃ addr, addr < maxAddress ∧ s.IsRun addr i := by
  refine ⟨fun addr => ?_, ?_⟩
  · split
    · next hle => exact queryProcessMemory_refused hle
    · next hlt => exact queryProcessMemory_run hk ht (Nat.lt_of_not_le hlt)
  · simpa using exists_sweep hk ht (Nat.zero_add _) (absurd · (Nat.lt_irrefl 0))

/-- A page with two neighbours of other permissions. -/
theorem queryProcessMemory_reprotected :
    ∃ runs, exampleReprotected.Sweep 0 runs ∧ runs.Nodup ∧
      ∀ i, i ∈ runs ↔ ∃ addr, addr < maxAddress ∧ exampleReprotected.IsRun addr i :=
  (queryProcessMemory_spec exampleReprotected (keyedByBase_keyed _) (by
    rw [exampleReprotected, areas_keyed]
    exact ⟨rfl, by decide, rfl, by decide, rfl, by decide, rfl, by decide, rfl⟩)).2

end VMManager

end GbaStation.Memory
