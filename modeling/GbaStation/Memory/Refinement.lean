import GbaStation.Memory.AddressSpace

/-!
# The map operations refine the operations on tilings

Each lemma says what an operation of `VMManager` returns on a map `keyed vs` whose areas
tile the managed space, in terms of `push`, `absorb`, `sweep` and `DividesAt`. Nothing
after this file looks into a map again.
-/

namespace GbaStation.Memory

open Kernel (Result)
open Segment VirtualMemoryArea
open Option (bind_eq_bind bind_some bind_eq_some_iff)
open VirtualMemoryArea (base cut)

namespace VMManager

/-- The map whose entries are the areas `vs`, each under its own base. -/
def keyed (vs : List VirtualMemoryArea) : VMAMap := vs.map fun v => (v.base, v)

@[simp] theorem keyed_nil : keyed [] = [] := rfl

@[simp] theorem keyed_cons (v : VirtualMemoryArea) (vs : List VirtualMemoryArea) :
    keyed (v :: vs) = (v.base, v) :: keyed vs := rfl

@[simp] theorem keyed_append (xs ys : List VirtualMemoryArea) :
    keyed (xs ++ ys) = keyed xs ++ keyed ys := List.map_append

theorem keyed_length (vs : List VirtualMemoryArea) : (keyed vs).length = vs.length :=
  List.length_map _

theorem keyed_head? (vs : List VirtualMemoryArea) :
    (keyed vs).head?.map Prod.fst = vs.head?.map base := by
  cases vs <;> rfl

variable {xs ys : List VirtualMemoryArea} {v : VirtualMemoryArea} {lo mid hi : Nat}

variable {k off size : Nat} {m : VMAMap}

theorem below_keyed_iff : OrdMap.Below (keyed xs) k ↔ ∀ w ∈ xs, w.base < k := by
  simp [OrdMap.Below, keyed]

theorem below_keyed (h : Tiles lo xs hi) : OrdMap.Below (keyed xs) hi := by
  refine below_keyed_iff.mpr fun w hw => ?_
  obtain ⟨-, hs, he⟩ := h.mem_bounds hw
  rw [base_def, size_def] at he
  rw [size_def] at hs
  omega

theorem above_keyed (h : Tiles mid xs hi) (hk : k < mid) : OrdMap.Above (keyed xs) k := by
  rintro ⟨k', w⟩ he
  obtain ⟨w', hw, heq⟩ := List.mem_map.mp he
  obtain ⟨rfl, rfl⟩ := Prod.mk.inj heq
  obtain ⟨hb, -⟩ := h.mem_bounds hw
  exact Nat.lt_of_lt_of_le hk hb

/-- What a tiling says about the keys around one of its areas. -/
theorem focus (h : Tiles lo (xs ++ v :: ys) hi) :
    OrdMap.Below (keyed xs) v.base ∧ OrdMap.Above (keyed ys) v.base ∧ 0 < v.size ∧
      v.base + v.size ≤ hi ∧ Tiles lo xs v.base ∧ Tiles (v.base + v.size) ys hi := by
  obtain ⟨m, hxs, rfl, hs, hys⟩ := tiles_append.mp h
  rw [base_def] at hxs
  rw [base_def, size_def] at hys
  rw [size_def] at hs
  exact ⟨below_keyed hxs, above_keyed hys (by omega), hs, hys.le, hxs, hys⟩

theorem get?_keyed (h : Tiles lo (xs ++ v :: ys) hi) :
    OrdMap.get? (keyed (xs ++ v :: ys)) v.base = some v := by
  obtain ⟨hb, -⟩ := focus h
  rw [keyed_append, keyed_cons, OrdMap.get?_focus hb]

theorem set_keyed (h : Tiles lo (xs ++ v :: ys) hi) {w : VirtualMemoryArea}
    (hw : w.base = v.base) :
    OrdMap.set (keyed (xs ++ v :: ys)) v.base w = keyed (xs ++ w :: ys) := by
  obtain ⟨hb, ha, -⟩ := focus h
  rw [keyed_append, keyed_cons, OrdMap.set_focus hb ha, keyed_append, keyed_cons, hw]

theorem next_keyed (h : Tiles lo (xs ++ v :: ys) hi) :
    OrdMap.next (keyed (xs ++ v :: ys)) v.base = ys.head?.map base := by
  obtain ⟨hb, ha, -⟩ := focus h
  rw [keyed_append, keyed_cons, OrdMap.next_focus hb ha, keyed_head?]

theorem prev_keyed (h : Tiles lo (xs ++ v :: ys) hi) :
    OrdMap.prev (keyed (xs ++ v :: ys)) (some v.base) =
      xs.getLast?.map base := by
  obtain ⟨hb, -⟩ := focus h
  rw [keyed_append, keyed_cons, OrdMap.prev_focus hb]
  rcases List.eq_nil_or_concat xs with rfl | ⟨zs, z, rfl⟩
  · rfl
  · simp [List.concat_eq_append, keyed]

theorem canBeMergedWith_eq {p n : VirtualMemoryArea} (hadj : p.base + p.size = n.base)
    (hlt : n.base < 2 ^ 32) : p.canBeMergedWith n = some (decide (p.Mergeable n)) := by
  unfold canBeMergedWith
  rw [add32_eq (by omega), if_pos hadj]

/-! ## Merging -/

theorem mergeNext_keyed (h : Tiles 0 (xs ++ v :: ys) maxAddress) :
    mergeNext v.base (keyed (xs ++ v :: ys)) =
      some (keyed (xs ++ (absorb v ys).1 :: (absorb v ys).2)) := by
  unfold mergeNext
  rw [get?_keyed h, next_keyed h]
  cases ys with
  | nil => rfl
  | cons n ys =>
    obtain ⟨-, -, -, hle, -, hn⟩ := focus h
    have hlim : maxAddress = 0x40000000 := rfl
    have hadj : v.base + v.size = n.base := hn.1.symm
    have hns := hn.2.2.le
    rw [size_def] at hns
    have hsplit : xs ++ v :: n :: ys = (xs ++ [v]) ++ n :: ys := by simp
    have hget : OrdMap.get? (keyed (xs ++ v :: n :: ys)) n.base = some n := by
      rw [hsplit]
      exact get?_keyed (hsplit ▸ h)
    simp only [List.head?_cons, Option.map_some, bind_eq_bind, bind_some, hget]
    rw [canBeMergedWith_eq hadj (by omega)]
    rw [absorb_cons]
    simp only [bind_some, decide_eq_true_eq]
    by_cases hm : v.Mergeable n
    · have hm' : Segment.Merges v n := hm
      rw [if_pos hm, if_pos hm', glue_def]
      have hset : OrdMap.set (keyed (xs ++ v :: n :: ys)) v.base
          { v with size := add32 v.size n.size } =
            keyed (xs ++ { v with size := v.size + n.size } :: n :: ys) := by
        rw [add32_eq (by omega)]
        exact set_keyed h rfl
      obtain ⟨hbn, han, -⟩ := focus (hsplit ▸ h)
      rw [hset, show xs ++ { v with size := v.size + n.size } :: n :: ys =
        (xs ++ [{ v with size := v.size + n.size }]) ++ n :: ys by simp, keyed_append, keyed_cons,
        OrdMap.erase_focus ?_ han]
      · simp
      · simpa only [below_keyed_iff, List.forall_mem_append, List.forall_mem_singleton] using hbn
    · have hm' : ¬ Segment.Merges v n := hm
      rw [if_neg hm, if_neg hm']

theorem mergePrev_keyed (h : Tiles 0 (xs ++ v :: ys) maxAddress) :
    ∃ zs l, push xs v = zs ++ [l] ∧
      mergePrev v.base (keyed (xs ++ v :: ys)) = some (l.base, keyed (zs ++ l :: ys)) := by
  unfold mergePrev
  rw [get?_keyed h, prev_keyed h]
  rcases List.eq_nil_or_concat xs with rfl | ⟨zs, p, rfl⟩
  · exact ⟨[], v, rfl, rfl⟩
  · rw [List.concat_eq_append] at h ⊢
    have hsplit : zs ++ [p] ++ v :: ys = zs ++ p :: v :: ys := by simp
    have hp : Tiles 0 (zs ++ p :: v :: ys) maxAddress := hsplit ▸ h
    obtain ⟨hbv, hav, -, hle, -⟩ := focus h
    obtain ⟨-, -, -, -, -, hv⟩ := focus hp
    have hlim : maxAddress = 0x40000000 := rfl
    have hadj : p.base + p.size = v.base := hv.1.symm
    have hget : OrdMap.get? (keyed (zs ++ [p] ++ v :: ys)) p.base = some p := by
      rw [hsplit]
      exact get?_keyed hp
    simp only [List.getLast?_concat, Option.map_some, bind_eq_bind, bind_some, hget]
    rw [canBeMergedWith_eq hadj (by omega), push_concat]
    simp only [bind_some, decide_eq_true_eq]
    by_cases hm : p.Mergeable v
    · have hm' : Segment.Merges p v := hm
      rw [if_pos hm, if_pos hm', glue_def]
      refine ⟨zs, { p with size := p.size + v.size }, rfl, ?_⟩
      have hset : OrdMap.set (keyed (zs ++ [p] ++ v :: ys)) p.base
          { p with size := add32 p.size v.size } =
            keyed (zs ++ { p with size := p.size + v.size } :: v :: ys) := by
        rw [hsplit, add32_eq (by omega)]
        exact set_keyed hp rfl
      rw [hset, show zs ++ { p with size := p.size + v.size } :: v :: ys =
        (zs ++ [{ p with size := p.size + v.size }]) ++ v :: ys by simp, keyed_append, keyed_cons,
        OrdMap.erase_focus ?_ hav]
      · simp
      · simpa only [below_keyed_iff, List.forall_mem_append, List.forall_mem_singleton] using hbv
    · have hm' : ¬ Segment.Merges p v := hm
      rw [if_neg hm, if_neg hm']
      exact ⟨zs ++ [p], v, by simp, rfl⟩

/-- `MergeAdjacent` absorbs to the right and pushes to the left. -/
theorem mergeAdjacent_keyed (h : Tiles 0 (xs ++ v :: ys) maxAddress) :
    ∃ zs l, push xs (absorb v ys).1 = zs ++ [l] ∧
      mergeAdjacent v.base (keyed (xs ++ v :: ys)) =
        some (l.base, keyed (zs ++ l :: (absorb v ys).2)) := by
  have hbase : (absorb v ys).1.base = v.base := by
    cases ys with
    | nil => rfl
    | cons n ys =>
      rw [absorb_cons]
      split_ifs <;> rfl
  obtain ⟨zs, l, hpush, hprev⟩ := mergePrev_keyed (tiles_absorb h)
  refine ⟨zs, l, hpush, ?_⟩
  unfold mergeAdjacent
  rw [mergeNext_keyed h]
  rw [hbase] at hprev
  exact hprev

/-! ## The loop over a range -/

section Loop

variable {upd : VirtualMemoryArea → VirtualMemoryArea} {f : PageAttr → PageAttr}

theorem tiles_upd (hu : Update upd f) (h : Tiles lo (xs ++ v :: ys) hi) :
    Tiles lo (xs ++ upd v :: ys) hi := by
  obtain ⟨m, hxs, h⟩ := tiles_append.mp h
  obtain ⟨m', hv, hys⟩ := tiles_cons.mp h
  exact tiles_append.mpr ⟨m, hxs, tiles_cons.mpr ⟨m', hu.tiles_upd hv, hys⟩⟩

theorem updateVMA_keyed (hu : Update upd f) (h : Tiles 0 (xs ++ v :: ys) maxAddress) :
    ∃ zs l, push xs (absorb (upd v) ys).1 = zs ++ [l] ∧
      updateVMA upd v.base (keyed (xs ++ v :: ys)) =
        some (l.base, keyed (zs ++ l :: (absorb (upd v) ys).2)) := by
  obtain ⟨zs, l, hpush, hmerge⟩ := mergeAdjacent_keyed (tiles_upd hu h)
  refine ⟨zs, l, hpush, ?_⟩
  have hbase : (upd v).base = v.base := hu.base_upd v
  unfold updateVMA
  rw [get?_keyed h]
  show mergeAdjacent v.base (OrdMap.set (keyed (xs ++ v :: ys)) v.base (upd v)) = _
  rw [set_keyed h hbase, ← hmerge, hbase]

/-- An update and a merge keep the tiling. -/
theorem tiles_push_absorb (hu : Update upd f) (h : Tiles lo (xs ++ v :: ys) hi) :
    Tiles lo (push xs (absorb (upd v) ys).1 ++ (absorb (upd v) ys).2) hi :=
  tiles_settle (tiles_upd hu h)

/-- One turn of the loop inside the range. -/
theorem updateLoop_step (hu : Update upd f) (h : Tiles 0 (xs ++ v :: ys) maxAddress)
    {e fuel : Nat} (hlt : v.base < e) :
    updateLoop upd e (fuel + 1) (some v.base) (keyed (xs ++ v :: ys)) =
      updateLoop upd e fuel ((absorb (upd v) ys).2.head?.map base)
        (keyed (push xs (absorb (upd v) ys).1 ++ (absorb (upd v) ys).2)) := by
  obtain ⟨zs, l, hpush, hupd⟩ := updateVMA_keyed hu h
  rw [updateLoop, get?_keyed h]
  simp only [bind_eq_bind, bind_some]
  rw [if_pos hlt, hupd]
  simp only [bind_some]
  have hsplit : push xs (absorb (upd v) ys).1 ++ (absorb (upd v) ys).2 =
      zs ++ l :: (absorb (upd v) ys).2 := by
    rw [hpush]
    simp
  have hpt := tiles_push_absorb hu h
  rw [hsplit] at hpt ⊢
  rw [next_keyed hpt]

/-- The loop stops at the end of the range. -/
theorem updateLoop_done (h : Tiles 0 (xs ++ ys) maxAddress) {e e' fuel : Nat}
    (hys : Tiles e' ys maxAddress) (he : e ≤ e') :
    updateLoop upd e (fuel + 1) (ys.head?.map base) (keyed (xs ++ ys)) =
      some (keyed (xs ++ ys)) := by
  cases ys with
  | nil => rfl
  | cons v ys =>
    have hb : v.base = e' := hys.1
    simp only [List.head?_cons, Option.map_some]
    rw [updateLoop, get?_keyed h]
    simp only [bind_eq_bind, bind_some]
    rw [if_neg (by omega)]

/-- The loop is a sweep over the areas of the range; the number of areas is fuel enough. -/
theorem updateLoop_keyed (hu : Update upd f) {mid e fuel : Nat}
    (done todo rest : List VirtualMemoryArea) (hd : Tiles 0 done mid) (ht : Tiles mid todo e)
    (hr : Tiles e rest maxAddress) (hfuel : todo.length < fuel) :
    updateLoop upd e fuel ((todo ++ rest).head?.map base)
      (keyed (done ++ (todo ++ rest))) = some (keyed (sweep upd done todo rest)) := by
  have hlt : ∀ {lo hi : Nat} {x : VirtualMemoryArea} {xs : List VirtualMemoryArea},
      Tiles lo (x :: xs) hi → x.base < hi := by
    intro lo hi x xs h
    have hpos : 0 < x.size := h.2.1
    have hle := h.2.2.le
    have hx : x.base = lo := h.1
    rw [size_def] at hle
    omega
  obtain ⟨fuel, rfl⟩ := Nat.exists_eq_succ_of_ne_zero (Nat.ne_zero_of_lt hfuel)
  have hall : Tiles 0 (done ++ (todo ++ rest)) maxAddress :=
    tiles_append.mpr ⟨mid, hd, tiles_append.mpr ⟨e, ht, hr⟩⟩
  induction done, todo, rest using sweep.induct upd generalizing mid fuel with
  | case1 done rest => exact updateLoop_done hall hr (Nat.le_refl e)
  | case2 done x =>
    refine (updateLoop_step hu hall (hlt ht)).trans ?_
    show updateLoop upd e fuel none (keyed (push done (upd x) ++ [])) = _
    rw [List.append_nil, updateLoop, sweep]
  | case3 done x n rest hm =>
    obtain ⟨fuel, rfl⟩ := Nat.exists_eq_succ_of_ne_zero (n := fuel) (by simp at hfuel; omega)
    simp only [List.cons_append, List.nil_append] at hall ⊢
    have hpt := tiles_push_absorb hu hall
    refine (updateLoop_step hu hall (hlt ht)).trans ?_
    rw [absorb_cons, if_pos hm] at hpt ⊢
    rw [sweep, if_pos hm]
    exact updateLoop_done hpt hr.2.2 (Nat.le_add_right _ _)
  | case4 done x n rest hm =>
    obtain ⟨fuel, rfl⟩ := Nat.exists_eq_succ_of_ne_zero (n := fuel) (by simp at hfuel; omega)
    simp only [List.cons_append, List.nil_append] at hall ⊢
    have hpt := tiles_push_absorb hu hall
    refine (updateLoop_step hu hall (hlt ht)).trans ?_
    rw [absorb_cons, if_neg hm] at hpt ⊢
    rw [sweep, if_neg hm]
    exact updateLoop_done hpt hr (Nat.le_refl e)
  | case5 done x n todo rest hm ih =>
    obtain ⟨fuel, rfl⟩ := Nat.exists_eq_succ_of_ne_zero (n := fuel) (by simp at hfuel; omega)
    simp only [List.cons_append] at hall ⊢
    have hpt := tiles_push_absorb hu hall
    refine (updateLoop_step hu hall (hlt ht)).trans ?_
    rw [absorb_cons, if_pos hm] at hpt ⊢
    rw [sweep, if_pos hm]
    obtain ⟨m, hx, hnt⟩ := tiles_cons.mp ht
    obtain ⟨m', hn, htodo⟩ := tiles_cons.mp hnt
    exact ih (tiles_push hd (tiles_glue (hu.tiles_upd hx) hn)) htodo hr fuel
      (by simp at hfuel ⊢; omega) hpt
  | case6 done x n todo rest hm ih =>
    obtain ⟨fuel, rfl⟩ := Nat.exists_eq_succ_of_ne_zero (n := fuel) (by simp at hfuel; omega)
    simp only [List.cons_append] at hall ⊢
    have hpt := tiles_push_absorb hu hall
    refine (updateLoop_step hu hall (hlt ht)).trans ?_
    rw [absorb_cons, if_neg hm] at hpt ⊢
    rw [sweep, if_neg hm]
    obtain ⟨m, hx, hnt⟩ := tiles_cons.mp ht
    exact ih (tiles_push hd (hu.tiles_upd hx)) hnt hr fuel (by simp at hfuel ⊢; omega) hpt

end Loop

/-! ## Finding and cutting areas -/

theorem keyed_getLast? (xs : List VirtualMemoryArea) (v : VirtualMemoryArea) :
    (keyed (xs ++ [v])).getLast?.map Prod.fst = some v.base := by
  simp

/-- `FindVMA` finds the area across the address. -/
theorem findVMA_keyed (h : Tiles 0 (xs ++ v :: ys) maxAddress) {target : Nat}
    (hv : Covers v target) : findVMA (keyed (xs ++ v :: ys)) target = some v.base := by
  obtain ⟨hb, -, -, hle, -, hys⟩ := focus h
  have hlo : v.base ≤ target := hv.1
  have hhi : target < v.base + v.size := hv.2
  unfold findVMA
  rw [if_neg (by omega)]
  have hsplit : xs ++ v :: ys = (xs ++ [v]) ++ ys := by simp
  have hle' : ∀ e ∈ keyed (xs ++ [v]), e.1 ≤ target := by
    intro e he
    rw [keyed_append] at he
    rcases List.mem_append.mp he with he | he
    · exact Nat.le_trans (Nat.le_of_lt (hb e he)) hlo
    · obtain rfl : e = (v.base, v) := by simpa using he
      exact hlo
  rw [hsplit, keyed_append, OrdMap.upperBound_focus hle' (above_keyed hys hhi), keyed_head?,
    ← keyed_append]
  cases ys with
  | nil =>
    rw [List.append_nil]
    exact keyed_getLast? xs v
  | cons n ys =>
    simp only [List.head?_cons, Option.map_some]
    rw [prev_keyed (hsplit ▸ h)]
    simp

theorem findVMA_none (m : VMAMap) {target : Nat} (h : maxAddress ≤ target) :
    findVMA m target = none := if_pos h

/-- What `SplitVMA` makes of an area inside which it can be cut. -/
theorem splitVMA_eq (h : Tiles 0 (xs ++ v :: ys) maxAddress) {backing : MemoryRef} (h0 : 0 < off)
    (hlt : off < v.size) (hback : v.backingAt off = some backing) :
    Cut v (v.base + off) { v with size := off }
        { v with base := v.base + off, size := v.size - off, backingMemory := backing } ∧
      splitVMA v.base off (keyed (xs ++ v :: ys)) =
        some (v.base + off, keyed (xs ++ { v with size := off } ::
          { v with
            base := v.base + off, size := v.size - off, backingMemory := backing } :: ys)) := by
  obtain ⟨-, -, hs, hle, -⟩ := focus h
  have hlim : maxAddress = 0x40000000 := rfl
  have hcut : Cut v (v.base + off) { v with size := off }
      { v with base := v.base + off, size := v.size - off, backingMemory := backing } := by
    refine cut h0 hlt fun ht => ?_
    unfold backingAt at hback
    rwa [ht] at hback
  obtain ⟨hl, hr⟩ := hcut.tiles h
  obtain ⟨hbl, -⟩ := focus hl
  have hbr := below_keyed hl
  have har := above_keyed hr.2.2 (k := v.base + off) (by
    rw [size_def]
    show v.base + off < v.base + off + (v.size - off)
    omega)
  have hmerge : VirtualMemoryArea.Mergeable { v with size := off }
      { v with base := v.base + off, size := v.size - off, backingMemory := backing } := hcut.merges
  refine ⟨hcut, ?_⟩
  unfold splitVMA
  rw [get?_keyed h]
  simp only [bind_eq_bind, bind_some]
  rw [if_neg (by omega), hback]
  simp only [bind_some]
  rw [add32_eq (by omega), sub32_eq (by omega) (by omega),
    canBeMergedWith_eq (by rfl) (by show v.base + off < _; omega), decide_eq_true hmerge]
  simp only [bind_some, if_true]
  rw [set_keyed h (w := { v with size := off }) rfl, show xs ++ { v with size := off } :: ys =
    (xs ++ [{ v with size := off }]) ++ ys by simp, keyed_append, OrdMap.emplace_focus hbr har]
  simp

/-- `SplitVMA` cuts the area. -/
theorem splitVMA_keyed (h : Tiles 0 (xs ++ v :: ys) maxAddress)
    (hsplit : splitVMA v.base off (keyed (xs ++ v :: ys)) = some (k, m)) :
    ∃ l r, Cut v (v.base + off) l r ∧ k = v.base + off ∧ m = keyed (xs ++ l :: r :: ys) := by
  have hinside : off < v.size ∧ 0 < off ∧ ∃ backing, v.backingAt off = some backing := by
    unfold splitVMA at hsplit
    rw [get?_keyed h] at hsplit
    simp only [bind_eq_bind, bind_some] at hsplit
    split at hsplit
    · cases hsplit
    next hoff =>
    obtain ⟨backing, hback, -⟩ := bind_eq_some_iff.mp hsplit
    exact ⟨by omega, by omega, backing, hback⟩
  obtain ⟨hlt, h0, backing, hback⟩ := hinside
  obtain ⟨hcut, heq⟩ := splitVMA_eq h h0 hlt hback
  rw [heq] at hsplit
  obtain ⟨rfl, rfl⟩ := returned hsplit
  exact ⟨_, _, hcut, rfl, rfl⟩

theorem findVMA_cover {vs : List VirtualMemoryArea} (h : Tiles 0 vs maxAddress) {target : Nat}
    (hlt : target < maxAddress) :
    ∃ xs v ys, vs = xs ++ v :: ys ∧ Covers v target ∧ findVMA (keyed vs) target = some v.base := by
  obtain ⟨xs, v, ys, rfl, hv⟩ := h.exists_cover (Nat.zero_le _) hlt
  exact ⟨xs, v, ys, rfl, hv, findVMA_keyed h hv⟩

/-- Splitting the area across `target`, unless one starts there, divides the areas. -/
theorem splitBefore_keyed (h : Tiles 0 (xs ++ v :: ys) maxAddress) {target : Nat}
    (hv : Covers v target)
    (hsplit : splitBefore v.base target (keyed (xs ++ v :: ys)) = some (k, m)) :
    ∃ ls rs, DividesAt 0 maxAddress (xs ++ v :: ys) target ls rs ∧ k = target ∧
      m = keyed (ls ++ rs) := by
  obtain ⟨-, -, -, hle, hxs, -⟩ := focus h
  have hlim : maxAddress = 0x40000000 := rfl
  have hlo : v.base ≤ target := hv.1
  have hhi : target < v.base + v.size := hv.2
  unfold splitBefore at hsplit
  rw [get?_keyed h] at hsplit
  simp only [bind_eq_bind, bind_some] at hsplit
  split at hsplit
  · rw [sub32_eq hlo (by omega)] at hsplit
    obtain ⟨l, r, hcut, rfl, rfl⟩ := splitVMA_keyed h hsplit
    rw [Nat.add_sub_cancel' hlo] at hcut ⊢
    exact ⟨xs ++ [l], r :: ys, .across h hcut, rfl, by simp⟩
  · next hne =>
    obtain rfl : target = v.base := by simpa using hne
    obtain ⟨rfl, rfl⟩ := returned hsplit
    obtain ⟨m, hxs', hys⟩ := tiles_append.mp h
    obtain rfl : v.base = m := hys.1
    exact ⟨xs, v :: ys, .between hxs' hys, rfl, rfl⟩

/-- The whole space divided at both ends of the range `[target, e)`. -/
structure Carved (vs : List VirtualMemoryArea) (target e : Nat)
    (done todo rest : List VirtualMemoryArea) : Prop where
  left : ∃ rs, DividesAt 0 maxAddress vs target done rs ∧
    DividesAt target maxAddress rs e todo rest
  nonempty : target < e

namespace Carved

variable {vs done todo rest : List VirtualMemoryArea} {target e : Nat}

theorem tiles (h : Carved vs target e done todo rest) :
    Tiles 0 done target ∧ Tiles target todo e ∧ Tiles e rest maxAddress := by
  obtain ⟨rs, h₁, h₂⟩ := h.left
  exact ⟨h₁.tiles.1, h₂.tiles.1, h₂.tiles.2⟩

theorem view (h : Carved vs target e done todo rest) (a : Nat) :
    Segment.view vs a =
      (Segment.view done a).or ((Segment.view todo a).or (Segment.view rest a)) := by
  obtain ⟨rs, h₁, h₂⟩ := h.left
  rw [← h₁.view, ← h₂.view]

theorem separated (h : Carved vs target e done todo rest) (hs : Separated vs) :
    Separated done ∧ Separated todo ∧ Separated rest := by
  obtain ⟨rs, h₁, h₂⟩ := h.left
  obtain ⟨hd, hr⟩ := h₁.separated hs
  exact ⟨hd, h₂.separated hr⟩

theorem todo_ne_nil (h : Carved vs target e done todo rest) : todo ≠ [] := by
  rintro rfl
  have heq : target = e := h.tiles.2.1
  exact Nat.ne_of_lt h.nonempty heq

theorem absorbsCut_iff {upd : VirtualMemoryArea → VirtualMemoryArea} {f : PageAttr → PageAttr}
    (h : Carved vs target e done todo rest) (hu : Update upd f) (hs : Separated vs) :
    AbsorbsCut upd todo rest ↔ EndsInAbsorbed upd vs target e := by
  obtain ⟨rs, h₁, h₂⟩ := h.left
  rw [absorbsCut_iff_right (h₁.separated hs).2 h₂, endsInAbsorbed_iff hu h₁]

end Carved

/-- The end of a range, split after its start was. -/
theorem splitAtEnd_keyed {done rs : List VirtualMemoryArea} {target e : Nat}
    (hd : Tiles 0 done target) (hrs : Tiles target rs maxAddress) (hlt : target < e)
    (hle : e ≤ maxAddress) (hsplit : splitAtEnd e (keyed (done ++ rs)) = some m) :
    ∃ todo rest, DividesAt target maxAddress rs e todo rest ∧
      m = keyed (done ++ (todo ++ rest)) := by
  have hall : Tiles 0 (done ++ rs) maxAddress := tiles_append.mpr ⟨target, hd, hrs⟩
  unfold splitAtEnd at hsplit
  rcases Nat.lt_or_eq_of_le hle with he | rfl
  · obtain ⟨xs, v, ys, heq, hv, hfind⟩ := findVMA_cover hall he
    rw [hfind] at hsplit
    obtain ⟨⟨k, m'⟩, hbefore, rfl⟩ := Option.map_eq_some_iff.mp hsplit
    rw [heq] at hbefore
    obtain ⟨ls, rest, hdiv, -, rfl⟩ := splitBefore_keyed (heq ▸ hall) hv hbefore
    obtain ⟨todo, rfl, hdiv'⟩ := DividesAt.of_append hd hrs hlt (heq ▸ hdiv)
    exact ⟨todo, rest, hdiv', by rw [List.append_assoc]⟩
  · rw [findVMA_none _ (Nat.le_refl _)] at hsplit
    obtain rfl := Option.some.inj hsplit
    refine ⟨rs, [], ?_, by simp⟩
    have hb : DividesAt target maxAddress (rs ++ []) maxAddress rs [] := .between hrs rfl
    rwa [List.append_nil] at hb

/-- The areas of a tiling that start before `e` come first. -/
theorem exists_split_base (h : Tiles lo xs hi) (e : Nat) :
    ∃ as bs, xs = as ++ bs ∧ (∀ v ∈ as, v.base < e) ∧ ∀ v ∈ bs, e ≤ v.base := by
  induction xs generalizing lo with
  | nil => exact ⟨[], [], rfl, by simp, by simp⟩
  | cons v vs ih =>
    by_cases hv : v.base < e
    · obtain ⟨as, bs, rfl, ha, hb⟩ := ih h.2.2
      exact ⟨v :: as, bs, rfl, by simpa [hv] using ha, hb⟩
    · refine ⟨[], v :: vs, rfl, by simp, fun w hw => ?_⟩
      have hvb : v.base = lo := h.1
      have hwb : lo ≤ w.base := (h.mem_bounds hw).1
      omega

/-- The areas from the one at `v.base` up to the first that starts at `e` or later. -/
theorem range_keyed (h : Tiles 0 (xs ++ v :: ys) maxAddress) {e : Nat} (hv : v.base < e) :
    ∃ as, OrdMap.range (keyed (xs ++ v :: ys)) v.base
        (OrdMap.lowerBound (keyed (xs ++ v :: ys)) e) = some (keyed (v :: as)) ∧
      (∀ w ∈ as, w ∈ ys ∧ w.base < e) ∧
      ∀ w ∈ xs ++ v :: ys, v.base ≤ w.base → w.base < e → w ∈ v :: as := by
  obtain ⟨hb, -, -, -, hxs, hys⟩ := focus h
  obtain ⟨as, bs, rfl, has, hbs⟩ := exists_split_base hys e
  refine ⟨as, ?_, fun w hw => ⟨List.mem_append_left _ hw, has w hw⟩, fun w hw hvw hwe => ?_⟩
  · have hbelow : OrdMap.Below (keyed (xs ++ v :: as)) e := by
      refine below_keyed_iff.mpr fun w hw => ?_
      rcases List.mem_append.mp hw with hw | hw
      · exact Nat.lt_trans (below_keyed_iff.mp hb w hw) hv
      · rcases List.mem_cons.mp hw with rfl | hw
        · exact hv
        · exact has w hw
    have hhead : ∀ p ∈ (keyed bs).head?, e ≤ p.1 := by
      rintro ⟨k, w⟩ hp
      obtain ⟨w', hw', heq⟩ := List.mem_map.mp (List.mem_of_mem_head? hp)
      obtain ⟨rfl, rfl⟩ := Prod.mk.inj heq
      exact hbs w' hw'
    have hsplit : keyed (xs ++ v :: (as ++ bs)) = keyed (xs ++ v :: as) ++ keyed bs := by simp
    rw [hsplit, OrdMap.lowerBound_focus hbelow hhead, keyed_append, List.append_assoc,
      OrdMap.range_focus hb (by simp) (by simp)]
    intro p hp q hq
    refine Nat.lt_of_lt_of_le (hbelow q ?_) (hhead p hp)
    rw [keyed_append]
    exact List.mem_append_right _ hq
  · rcases List.mem_append.mp hw with hw | hw
    · have := below_keyed_iff.mp hb w hw
      omega
    · rcases List.mem_cons.mp hw with rfl | hw
      · exact List.mem_cons_self ..
      · rcases List.mem_append.mp hw with hw | hw
        · exact List.mem_cons_of_mem _ hw
        · have := hbs w hw
          omega

/-- `CarveVMARange` returns only for a range that is not empty and inside the space. -/
theorem carveVMARange_inSpace {target : Nat} (ht : target < 2 ^ 32) (hs : size < 2 ^ 32)
    {out : Except Result Nat × VMAMap} (hcarve : carveVMARange target size m = some out) :
    0 < size ∧ target + size ≤ maxAddress := by
  unfold carveVMARange at hcarve
  simp only at hcarve
  split at hcarve
  · cases hcarve
  split at hcarve
  · cases hcarve
  next hrange =>
  simp only [add32] at hrange
  omega

/-- What `CarveVMARange` returns: an error and the map as it was when a free area is in the
range, or else the map divided at both ends of the range. -/
theorem carveVMARange_keyed {vs : List VirtualMemoryArea} (h : Tiles 0 vs maxAddress) {target : Nat}
    (ht : target < 2 ^ 32) (hs : size < 2 ^ 32) {res : Except Result Nat}
    (hcarve : carveVMARange target size (keyed vs) = some (res, m)) :
    (res = .error Result.invalidAddressState ∧ m = keyed vs) ∨
      res = .ok target ∧
        (∀ w ∈ vs, target < w.base + w.size → w.base < target + size → w.type ≠ .free) ∧
        ∃ done todo rest, Carved vs target (target + size) done todo rest ∧
          m = keyed (done ++ (todo ++ rest)) := by
  have hlim : maxAddress = 0x40000000 := rfl
  obtain ⟨hpos, hle⟩ := carveVMARange_inSpace ht hs hcarve
  unfold carveVMARange at hcarve
  rw [add32_eq (by omega)] at hcarve
  simp only at hcarve
  split at hcarve
  · cases hcarve
  split at hcarve
  · cases hcarve
  obtain ⟨xs, v, ys, rfl, hv, hfind⟩ := findVMA_cover h (show target < maxAddress by omega)
  have hvlo : v.base ≤ target := hv.1
  obtain ⟨as, hrange, -, has⟩ := range_keyed h (show v.base < target + size by omega)
  simp only [hfind, hrange, bind_eq_bind, bind_some] at hcarve
  split at hcarve
  · obtain ⟨rfl, rfl⟩ := returned hcarve
    exact Or.inl ⟨rfl, rfl⟩
  next hfree =>
  obtain ⟨⟨k, m₁⟩, hbefore, hcarve⟩ := bind_eq_some_iff.mp hcarve
  obtain ⟨m₂, hend, hcarve⟩ := bind_eq_some_iff.mp hcarve
  obtain ⟨rfl, rfl⟩ := returned hcarve
  obtain ⟨done, rs, hdiv, rfl, rfl⟩ := splitBefore_keyed h hv hbefore
  obtain ⟨todo, rest, hdiv', rfl⟩ := splitAtEnd_keyed hdiv.tiles.1 hdiv.tiles.2 (by omega) hle hend
  refine Or.inr ⟨rfl, fun w hw hlo hhi hw' => hfree ?_, done, todo, rest,
    ⟨⟨rs, hdiv, hdiv'⟩, by omega⟩, rfl⟩
  have hvw : v.base ≤ w.base := by
    obtain ⟨hb, -, -, -, hxs, -⟩ := focus h
    rcases List.mem_append.mp hw with hw | hw
    · have := (hxs.mem_bounds hw).2.2
      rw [base_def, size_def] at this
      omega
    · obtain ⟨m, -, hys⟩ := tiles_append.mp h
      obtain rfl : v.base = m := hys.1
      exact (hys.mem_bounds hw).1
  rw [List.any_eq_true]
  exact ⟨(w.base, w), List.mem_map_of_mem (has w hw hvw hhi), by simpa using hw'⟩

/-- The map cut at the end of the part of an area that `CarveVMA` takes. -/
theorem splitEnd_keyed (h : Tiles 0 (xs ++ v :: ys) maxAddress)
    (hsplit : splitEnd v.base off v.size (keyed (xs ++ v :: ys)) = some m) :
    ∃ w rest, DividesAt 0 maxAddress (xs ++ v :: ys) (v.base + off) (xs ++ [w]) rest ∧
      w.base = v.base ∧ w.size = off ∧ w.type = v.type ∧ m = keyed (xs ++ w :: rest) := by
  unfold splitEnd at hsplit
  split at hsplit
  · obtain ⟨⟨k, m'⟩, hs, rfl⟩ := Option.map_eq_some_iff.mp hsplit
    obtain ⟨l, r, hcut, -, rfl⟩ := splitVMA_keyed h hs
    have htype : l.type = v.type := congrArg PageAttr.type (hcut.attr_left 0)
    have hlb : l.base = v.base := hcut.base_left
    have hle : l.base + l.size = v.base + off := hcut.end_left
    exact ⟨l, r :: ys, .across h hcut, hlb, by omega, htype, rfl⟩
  · next hne =>
    obtain rfl := Option.some.inj hsplit
    obtain rfl : off = v.size := by simpa using hne
    obtain ⟨m, hxs, hvs⟩ := tiles_append.mp h
    obtain ⟨m', hv, hys⟩ := tiles_cons.mp hvs
    obtain rfl : v.base = m := hv.1
    obtain rfl : v.base + v.size = m' := hv.2.2
    refine ⟨v, ys, ?_, rfl, rfl, rfl, rfl⟩
    have := DividesAt.between (tiles_append.mpr ⟨v.base, hxs, hv⟩) hys
    simpa using this

/-- The map cut at the start of the part of a free area that `CarveVMA` takes. -/
theorem splitStart_keyed {w : VirtualMemoryArea} {rest : List VirtualMemoryArea}
    (h : Tiles 0 (xs ++ w :: rest) maxAddress) {start e : Nat} (hw : Tiles 0 (xs ++ [w]) e)
    (hlt : start < w.size ∨ start ≠ 0)
    (hsplit : splitStart w.base start (keyed (xs ++ w :: rest)) = some (k, m)) :
    start < w.size ∧ k = w.base + start ∧ ∃ done x,
      DividesAt 0 e (xs ++ [w]) (w.base + start) done [x] ∧ x.type = w.type ∧
        m = keyed (done ++ x :: rest) := by
  unfold splitStart at hsplit
  split at hsplit
  · obtain ⟨l, r, hcut, rfl, rfl⟩ := splitVMA_keyed h hsplit
    have htype : r.type = w.type :=
      congrArg PageAttr.type (hcut.attr_right (w.base + start) (Nat.le_refl _))
    have hin : w.base + start < w.base + w.size := hcut.inside.2
    exact ⟨by omega, rfl, xs ++ [l], r, .across hw hcut, htype, by simp⟩
  · next h0 =>
    obtain rfl : start = 0 := by simpa using h0
    obtain ⟨rfl, rfl⟩ := returned hsplit
    obtain ⟨m, hxs, hw'⟩ := tiles_append.mp hw
    obtain rfl : w.base = m := hw'.1
    exact ⟨by omega, rfl, xs, w, .between hxs hw', rfl, rfl⟩

/-- What `CarveVMA` returns: an error and the map as it was, or else the map with a free
area of its own over the range, which is not empty and inside the space. -/
theorem carveVMA_keyed {vs : List VirtualMemoryArea} (h : Tiles 0 vs maxAddress) {base : Nat}
    (hs : size < 2 ^ 32) {res : Except Result Nat}
    (hcarve : carveVMA base size (keyed vs) = some (res, m)) :
    (∃ e : Result, e.isSuccess = false ∧ res = .error e ∧ m = keyed vs) ∨
      res = .ok base ∧ 0 < size ∧ base + size ≤ maxAddress ∧
        ∃ ls done x rest, DividesAt 0 maxAddress vs (base + size) ls rest ∧
          DividesAt 0 (base + size) ls base done [x] ∧ x.type = .free ∧
          m = keyed (done ++ x :: rest) := by
  have hlim : maxAddress = 0x40000000 := rfl
  unfold carveVMA at hcarve
  split at hcarve
  · cases hcarve
  by_cases hmax : maxAddress ≤ base
  · rw [findVMA_none _ hmax] at hcarve
    obtain ⟨rfl, rfl⟩ := returned hcarve
    exact Or.inl ⟨_, rfl, rfl, rfl⟩
  obtain ⟨xs, v, ys, rfl, hv, hfind⟩ := findVMA_cover h (Nat.lt_of_not_le hmax)
  have hvlo : v.base ≤ base := hv.1
  obtain ⟨-, -, -, hvle, -⟩ := focus h
  simp only [hfind, get?_keyed h, bind_eq_bind, bind_some] at hcarve
  rw [sub32_eq hvlo (by omega)] at hcarve
  split at hcarve
  · obtain ⟨rfl, rfl⟩ := returned hcarve
    exact Or.inl ⟨_, rfl, rfl, rfl⟩
  next hfree =>
  split at hcarve
  · obtain ⟨rfl, rfl⟩ := returned hcarve
    exact Or.inl ⟨_, rfl, rfl, rfl⟩
  next hfit =>
  obtain ⟨m₁, hend, hcarve⟩ := bind_eq_some_iff.mp hcarve
  obtain ⟨⟨k, m₂⟩, hstart, hcarve⟩ := bind_eq_some_iff.mp hcarve
  obtain ⟨rfl, rfl⟩ := returned hcarve
  obtain ⟨w, rest, hdiv, hwb, hws, hwt, rfl⟩ := splitEnd_keyed h hend
  have hwpos : 0 < w.size := by
    have := (hdiv.tiles.1.mem_bounds (v := w) (by simp)).2.1
    rwa [size_def] at this
  have ht : Tiles 0 (xs ++ w :: rest) maxAddress := by
    have := tiles_append.mpr ⟨_, hdiv.tiles⟩
    simpa using this
  have hstart' := hstart
  rw [← hwb] at hstart'
  obtain ⟨hlt, rfl, done, x, hdiv', hxt, rfl⟩ := splitStart_keyed ht hdiv.tiles.1 (by omega) hstart'
  -- no wrap: the region starts before it ends
  have hadd : add32 (base - v.base) size = base - v.base + size := by
    unfold add32 at hws hfit ⊢
    omega
  rw [hadd] at hws hdiv hdiv' hfit
  rw [hwb] at hdiv' ⊢
  rw [show v.base + (base - v.base + size) = base + size by omega] at hdiv hdiv'
  rw [show v.base + (base - v.base) = base by omega] at hdiv' ⊢
  have hfw : x.type = .free := (hxt.trans hwt).trans (by simpa using hfree)
  exact Or.inr ⟨rfl, by omega, by omega, _, done, x, rest, hdiv, hdiv', hfw, rfl⟩

end VMManager

end GbaStation.Memory
