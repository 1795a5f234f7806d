import GbaStation.Common.IntervalSet

/-!
# Maps of numbers kept as segments

`boost::icl::interval_map` with values that are set and not combined: a partial map of the natural
numbers kept as segments, right-open intervals with a value, in ascending order and without
overlap. Segments that touch and have the same value are joined when a value is set.

What an operation does is said about the value of each number (`get`).
-/

namespace GbaStation

open List (pairwise_cons mem_map forall_mem_cons)
open GbaStation.Interval (cutOut mem_cutOut cover)

universe u

/-- The segments of a map, in ascending order. -/
structure IntervalMap (α : Type u) where
  segments : List (Interval × α)
  nonempty : ∀ s ∈ segments, s.1.lower < s.1.upper
  ordered : segments.Pairwise fun s t => s.1.upper ≤ t.1.lower

namespace IntervalMap

variable {α : Type u}

def empty : IntervalMap α := ⟨[], List.forall_mem_nil _, List.Pairwise.nil⟩

/-- The segment that a number lies in. -/
def hit (x : Nat) (s : Interval × α) : Bool := decide (s.1.lower ≤ x ∧ x < s.1.upper)

/-- The value of a number in a list of segments. -/
def look (x : Nat) (segments : List (Interval × α)) : Option α :=
  (segments.find? (hit x)).map (·.2)

def get (m : IntervalMap α) (x : Nat) : Option α := look x m.segments

/-- The segments that have a number in common with the interval, as `equal_range` gives them. -/
def overlapping (m : IntervalMap α) (i : Interval) : List (Interval × α) :=
  m.segments.filter fun s => decide (max s.1.lower i.lower < min s.1.upper i.upper)

theorem look_cons (x : Nat) (s : Interval × α) (segments : List (Interval × α)) :
    look x (s :: segments) =
      if s.1.lower ≤ x ∧ x < s.1.upper then some s.2 else look x segments := by
  unfold look hit
  rw [List.find?_cons]
  by_cases h : s.1.lower ≤ x ∧ x < s.1.upper
  · simp [h]
  · rw [if_neg h, decide_eq_false h]

theorem look_eq_none {x : Nat} {segments : List (Interval × α)}
    (h : ∀ s ∈ segments, ¬(s.1.lower ≤ x ∧ x < s.1.upper)) : look x segments = none := by
  unfold look
  rw [Option.map_eq_none_iff, List.find?_eq_none]
  exact fun s hs => by simpa [hit] using h s hs

variable {hi lo x : Nat} {v : α} {s : Interval × α} {i : Interval}

theorem mem_of_look {segments : List (Interval × α)} (h : look x segments = some v) :
    ∃ s ∈ segments, s.2 = v ∧ s.1.lower ≤ x ∧ x < s.1.upper := by
  obtain ⟨s, hs, rfl⟩ := Option.map_eq_some_iff.mp h
  exact ⟨s, List.mem_of_find?_eq_some hs, rfl, by simpa [hit] using List.find?_some hs⟩

/-- Of an ordered list, each segment gives its value to its numbers. -/
theorem look_of_mem {segments : List (Interval × α)}
    (ho : segments.Pairwise fun s t => s.1.upper ≤ t.1.lower) (hs : s ∈ segments)
    (hx : s.1.lower ≤ x ∧ x < s.1.upper) : look x segments = some s.2 := by
  induction segments with
  | nil => cases hs
  | cons t segments ih =>
    obtain ⟨ht, ho⟩ := pairwise_cons.mp ho
    rw [look_cons]
    rcases List.mem_cons.mp hs with rfl | hs
    · rw [if_pos hx]
    · rw [if_neg (by have := ht s hs; omega)]
      exact ih ho hs

theorem get_of_mem (m : IntervalMap α) (hs : s ∈ m.segments) (hx : s.1.lower ≤ x ∧ x < s.1.upper) :
    m.get x = some s.2 :=
  look_of_mem m.ordered hs hx

@[simp] theorem get_empty (x : Nat) : (empty : IntervalMap α).get x = none := rfl

/-! ## Removing an interval -/

/-- What is left of the segments without `[lo, hi)`. -/
def cut (lo hi : Nat) (segments : List (Interval × α)) : List (Interval × α) :=
  segments.flatMap fun s => (cutOut lo hi s.1).map (·, s.2)

theorem mem_cut {segments : List (Interval × α)} {t : Interval × α} (ht : t ∈ cut lo hi segments) :
    ∃ s ∈ segments, t.2 = s.2 ∧ s.1.lower ≤ t.1.lower ∧ t.1.lower < t.1.upper ∧
      t.1.upper ≤ s.1.upper := by
  obtain ⟨s, hs, ht⟩ := List.mem_flatMap.mp ht
  obtain ⟨i, hi, rfl⟩ := mem_map.mp ht
  have := mem_cutOut hi
  exact ⟨s, hs, rfl, this.1, this.2.1, this.2.2.1⟩

theorem nonempty_cut (lo hi : Nat) (segments : List (Interval × α)) :
    ∀ t ∈ cut lo hi segments, t.1.lower < t.1.upper := fun _ ht =>
  let ⟨_, _, _, _, h, _⟩ := mem_cut ht
  h

theorem off_cut {segments : List (Interval × α)} {t : Interval × α} (ht : t ∈ cut lo hi segments) :
    t.1.upper ≤ lo ∨ hi ≤ t.1.lower := by
  obtain ⟨s, -, ht⟩ := List.mem_flatMap.mp ht
  obtain ⟨i, hi, rfl⟩ := mem_map.mp ht
  exact (mem_cutOut hi).2.2.2

theorem same_cut {segments : List (Interval × α)} {p : α → Prop} (h : ∀ s ∈ segments, p s.2) :
    ∀ t ∈ cut lo hi segments, p t.2 := fun _ ht =>
  let ⟨s, hs, hval, _⟩ := mem_cut ht
  hval ▸ h s hs

theorem ordered_cut (hlt : lo < hi) {segments : List (Interval × α)}
    (ho : segments.Pairwise fun s t => s.1.upper ≤ t.1.lower) :
    (cut lo hi segments).Pairwise fun s t => s.1.upper ≤ t.1.lower := by
  refine List.pairwise_flatMap.mpr ⟨fun s _ => ?_, ho.imp ?_⟩
  · rw [List.pairwise_map]
    exact (Interval.cutOut_gaps hlt s.1).imp Nat.le_of_lt
  · intro s t hst k hk l hl
    obtain ⟨i, hi, rfl⟩ := mem_map.mp hk
    obtain ⟨j, hj, rfl⟩ := mem_map.mp hl
    have hki := mem_cutOut hi
    have hlj := mem_cutOut hj
    simp only
    omega

theorem look_append (x : Nat) (xs ys : List (Interval × α)) :
    look x (xs ++ ys) = (look x xs).or (look x ys) := by
  unfold look
  rw [List.find?_append]
  cases xs.find? (hit x) <;> simp

/-- What is left of one segment. -/
theorem look_cutOut (lo hi x : Nat) (s : Interval × α) :
    look x ((cutOut lo hi s.1).map (·, s.2)) =
      if lo ≤ x ∧ x < hi then none
      else if s.1.lower ≤ x ∧ x < s.1.upper then some s.2 else none := by
  have hmem : ∀ t ∈ (cutOut lo hi s.1).map (·, s.2),
      s.1.lower ≤ t.1.lower ∧ t.1.upper ≤ s.1.upper ∧ (t.1.upper ≤ lo ∨ hi ≤ t.1.lower) := by
    intro t ht
    obtain ⟨i, hi, rfl⟩ := mem_map.mp ht
    have := mem_cutOut hi
    exact ⟨this.1, this.2.2.1, this.2.2.2⟩
  split_ifs with hx hs
  · exact look_eq_none fun t ht => by have := hmem t ht; omega
  · -- The number is in the part before `lo` or in that from `hi` on.
    unfold cutOut
    by_cases hlo : x < lo
    · rw [if_pos (by omega), List.singleton_append, List.map_cons, look_cons,
        if_pos (by simp only; omega)]
    · rw [if_pos (c := max s.1.lower hi < s.1.upper) (by omega), List.map_append, look_append,
        @look_eq_none _ _ (List.map _ (ite ..)), Option.none_or, List.map_singleton,
        look_cons, if_pos (by simp only; omega)]
      intro t ht
      split_ifs at ht
      · obtain rfl := List.mem_singleton.mp ht
        simp only
        omega
      · cases ht
  · exact look_eq_none fun t ht => by have := hmem t ht; omega

theorem look_cut (lo hi x : Nat) (segments : List (Interval × α)) :
    look x (cut lo hi segments) = if lo ≤ x ∧ x < hi then none else look x segments := by
  induction segments with
  | nil => simp [cut, look]
  | cons s segments ih =>
    rw [cut, List.flatMap_cons, look_append, look_cutOut, ← cut, ih, look_cons]
    split_ifs <;> simp

/-- `m -= i`, or `erase`. -/
def erase (m : IntervalMap α) (i : Interval) : IntervalMap α :=
  if h : i.lower < i.upper then
    ⟨cut i.lower i.upper m.segments, nonempty_cut i.lower i.upper m.segments,
      ordered_cut h m.ordered⟩
  else m

theorem get_erase (m : IntervalMap α) (i : Interval) (x : Nat) :
    (m.erase i).get x = if i.lower ≤ x ∧ x < i.upper then none else m.get x := by
  unfold erase
  split_ifs with hlt hx hx
  · exact (look_cut ..).trans (if_pos hx)
  · exact (look_cut ..).trans (if_neg hx)
  · omega
  · rfl

/-- `m -= s`. -/
def eraseSet (m : IntervalMap α) (s : IntervalSet) : IntervalMap α := s.blocks.foldl erase m

theorem get_eraseSet (m : IntervalMap α) (s : IntervalSet) (x : Nat) :
    (m.eraseSet s).get x = if x ∈ s.toFinset then none else m.get x := by
  have hfold : ∀ (bs : List Interval) (m : IntervalMap α), (bs.foldl erase m).get x =
      if x ∈ cover bs then none else m.get x := by
    intro bs
    induction bs with
    | nil => simp
    | cons b bs ih =>
      intro m
      rw [List.foldl_cons, ih, get_erase, Interval.cover_cons]
      by_cases hx : x ∈ cover bs
      · rw [if_pos hx, if_pos (Finset.mem_union_right _ hx)]
      · by_cases hb : x ∈ b.toFinset
        · rw [if_neg hx, if_pos (Interval.mem_toFinset.mp hb), if_pos (Finset.mem_union_left _ hb)]
        · rw [if_neg hx, if_neg (fun h => hb (Interval.mem_toFinset.mpr h)),
            if_neg (fun h => (Finset.mem_union.mp h).elim hb hx)]
  exact hfold s.blocks m

/-! ## Setting a value -/

/-- Put a segment among segments that it does not overlap, joined with those that it touches and
that have its value. -/
def put [BEq α] (i : Interval) (v : α) : List (Interval × α) → List (Interval × α)
  | [] => [(i, v)]
  | s :: segments =>
    if s.1.upper < i.lower ∨ (s.1.upper = i.lower ∧ ¬s.2 == v) then s :: put i v segments
    else if s.1.upper = i.lower then put ⟨s.1.lower, i.upper⟩ v segments
    else if i.upper = s.1.lower ∧ s.2 == v then (⟨i.lower, s.1.upper⟩, v) :: segments
    else (i, v) :: s :: segments

/-- What `put` is about: a segment, and an ordered list of segments that it does not overlap. -/
structure Fits (i : Interval) (segments : List (Interval × α)) : Prop where
  lt : i.lower < i.upper
  nonempty : ∀ s ∈ segments, s.1.lower < s.1.upper
  ordered : segments.Pairwise fun s t => s.1.upper ≤ t.1.lower
  off : ∀ s ∈ segments, s.1.upper ≤ i.lower ∨ i.upper ≤ s.1.lower

theorem Fits.tail {segments : List (Interval × α)} (h : Fits i (s :: segments)) :
    Fits i segments where
  lt := h.lt
  nonempty := (forall_mem_cons.mp h.nonempty).2
  ordered := (pairwise_cons.mp h.ordered).2
  off := (forall_mem_cons.mp h.off).2

/-- A segment joined with the one that it touches on its left. -/
theorem Fits.join {segments : List (Interval × α)} (h : Fits i (s :: segments))
    (htouch : s.1.upper = i.lower) :
    Fits ⟨s.1.lower, i.upper⟩ segments where
  lt := by
    have := h.lt
    have := h.nonempty s List.mem_cons_self
    simp only
    omega
  nonempty := h.tail.nonempty
  ordered := h.tail.ordered
  off t ht := by
    have := h.tail.off t ht
    have := h.tail.nonempty t ht
    have := (pairwise_cons.mp h.ordered).1 t ht
    simp only
    omega

theorem fits_cut (hlt : i.lower < i.upper) (m : IntervalMap α) :
    Fits i (cut i.lower i.upper m.segments) where
  lt := hlt
  nonempty := nonempty_cut _ _ _
  ordered := ordered_cut hlt m.ordered
  off _ ht := off_cut ht

variable [BEq α]

/-- The segments afterwards are in order, and begin no lower than those before or the new one. -/
theorem Fits.put {segments : List (Interval × α)} (h : Fits i segments) :
    (∀ s ∈ put i v segments, s.1.lower < s.1.upper) ∧
      ((put i v segments).Pairwise fun s t => s.1.upper ≤ t.1.lower) ∧
      ∀ c, c ≤ i.lower → (∀ s ∈ segments, c ≤ s.1.lower) →
        ∀ s ∈ put i v segments, c ≤ s.1.lower := by
  induction segments generalizing i with
  | nil =>
    refine ⟨fun s hs => ?_, List.pairwise_singleton .., fun c hc _ s hs => ?_⟩
    · obtain rfl := List.mem_singleton.mp hs
      exact h.lt
    · obtain rfl := List.mem_singleton.mp hs
      exact hc
  | cons s segments ih =>
    obtain ⟨hs, -⟩ := pairwise_cons.mp h.ordered
    have hne := h.nonempty s List.mem_cons_self
    have hlt := h.lt
    have hoff := h.off s List.mem_cons_self
    rw [IntervalMap.put]
    split_ifs with hleft htouch hright
    · obtain ⟨hnonempty, hordered, hbound⟩ := ih h.tail
      refine ⟨forall_mem_cons.mpr ⟨hne, hnonempty⟩,
        pairwise_cons.mpr ⟨hbound _ (by omega) hs, hordered⟩, fun c hc hcs => ?_⟩
      obtain ⟨hcs, hcs'⟩ := forall_mem_cons.mp hcs
      exact forall_mem_cons.mpr ⟨hcs, hbound c hc hcs'⟩
    · obtain ⟨hnonempty, hordered, hbound⟩ := ih (h.join htouch)
      refine ⟨hnonempty, hordered, fun c _ hcs => ?_⟩
      obtain ⟨hcs, hcs'⟩ := forall_mem_cons.mp hcs
      exact hbound c hcs hcs'
    · refine ⟨forall_mem_cons.mpr ⟨?_, h.tail.nonempty⟩,
        pairwise_cons.mpr ⟨hs, h.tail.ordered⟩, fun c hc hcs => ?_⟩
      · simp only
        omega
      · exact forall_mem_cons.mpr ⟨hc, (forall_mem_cons.mp hcs).2⟩
    · refine ⟨forall_mem_cons.mpr ⟨hlt, h.nonempty⟩,
        pairwise_cons.mpr ⟨fun t ht => ?_, h.ordered⟩, fun c hc hcs =>
          forall_mem_cons.mpr ⟨hc, hcs⟩⟩
      show i.upper ≤ t.1.lower
      rcases List.mem_cons.mp ht with rfl | ht
      · omega
      · have := hs t ht
        omega

/-- The segment gives its value to its numbers, where equal values are the same. -/
theorem Fits.look_put {segments : List (Interval × α)} (h : Fits i segments)
    (hsame : ∀ s ∈ segments, (s.2 == v) = true → s.2 = v) (x : Nat) :
    look x (IntervalMap.put i v segments) =
      if i.lower ≤ x ∧ x < i.upper then some v else look x segments := by
  induction segments generalizing i with
  | nil => exact look_cons ..
  | cons s segments ih =>
    obtain ⟨hsame, hsame'⟩ := forall_mem_cons.mp hsame
    have hne := h.nonempty s List.mem_cons_self
    have hlt := h.lt
    rw [IntervalMap.put, look_cons x s]
    by_cases hleft : s.1.upper < i.lower ∨ (s.1.upper = i.lower ∧ ¬s.2 == v)
    · rw [if_pos hleft, look_cons, ih h.tail hsame']
      split_ifs <;> first | rfl | omega
    rw [if_neg hleft]
    by_cases htouch : s.1.upper = i.lower
    · have hval : s.2 = v := by
        by_contra hv
        exact hleft (.inr ⟨htouch, fun heq => hv (hsame heq)⟩)
      rw [if_pos htouch, ih (h.join htouch) hsame', hval]
      simp only
      split_ifs <;> first | rfl | omega
    rw [if_neg htouch]
    by_cases hright : i.upper = s.1.lower ∧ s.2 == v
    · rw [if_pos hright, look_cons, hsame hright.2]
      simp only
      split_ifs <;> first | rfl | omega
    · rw [if_neg hright, look_cons, look_cons]

/-- `m.set({i, v})`. -/
def set (m : IntervalMap α) (i : Interval) (v : α) : IntervalMap α :=
  if h : i.lower < i.upper then
    ⟨put i v (cut i.lower i.upper m.segments), (fits_cut h m).put.1, (fits_cut h m).put.2.1⟩
  else m

theorem get_set {m : IntervalMap α} (hsame : ∀ s ∈ m.segments, (s.2 == v) = true → s.2 = v)
    (i : Interval) (x : Nat) :
    (m.set i v).get x = if i.lower ≤ x ∧ x < i.upper then some v else m.get x := by
  have hsame' : ∀ s ∈ cut i.lower i.upper m.segments, (s.2 == v) = true → s.2 = v :=
    same_cut (p := fun w => (w == v) = true → w = v) hsame
  unfold set
  split_ifs with hlt hx hx
  · exact ((fits_cut hlt m).look_put hsame' x).trans (if_pos hx)
  · exact ((fits_cut hlt m).look_put hsame' x).trans
      ((if_neg hx).trans ((look_cut ..).trans (if_neg hx)))
  · omega
  · rfl

end IntervalMap

end GbaStation
