import Mathlib.Data.List.Chain

/-!
# Tilings of an address line by mergeable segments

A *segment* covers the addresses `[base, base + size)` and gives each of them an
attribute. Some neighbouring segments can be merged into one without changing any
attribute (`Merges`, `glue`); every segment can be cut in two (`Cut`).

- `Tiles lo vs hi`: the list `vs` covers `[lo, hi)` without gap or overlap.
- `view vs a`: the attribute a list of segments gives to the address `a`.
- `Separated vs`: no two neighbours of `vs` can be merged.
- `sweep upd done todo rest`: walk over `todo`, update each segment, and merge it
  with its right and then its left neighbour before stepping to the next one. This
  is the loop by which an address-space manager rewrites a range in place.

The three facts about `sweep` are `sweep_tiles`, `view_sweep` and `sweep_separated`.
The last one needs a side condition: a walk that merges to the right only once
leaves a mergeable pair behind when it absorbs a segment that was itself cut off
from a longer one at the end of the range.
-/

namespace GbaStation

open List (singleton_append mem_append mem_cons_of_mem eq_nil_or_concat concat_eq_append
  forall_mem_append forall_mem_cons)

universe u v

/-- A type of segments of an address line. `Merges p n` says that `p` and its right
neighbour `n` may be replaced by `glue p n`. -/
class Segment (α : Type u) (β : outParam (Type v)) where
  base : α → Nat
  size : α → Nat
  attr : α → Nat → β
  Merges : α → α → Prop
  decMerges : ∀ p n, Decidable (Merges p n)
  glue : α → α → α

namespace Segment

instance {α : Type u} {β : Type v} [Segment α β] (p n : α) : Decidable (Merges p n) :=
  decMerges p n

/-- Gluing mergeable neighbours changes no attribute, and the glued segment merges
to the left as its left part and to the right as its right part. -/
class Lawful (α : Type u) {β : outParam (Type v)} [Segment α β] : Prop where
  base_glue : ∀ p n : α, base (glue p n) = base p
  size_glue : ∀ p n : α, size (glue p n) = size p + size n
  attr_glue_left : ∀ (p n : α) (a : Nat), attr (glue p n) a = attr p a
  attr_glue_right : ∀ (p n : α) (a : Nat), Merges p n → base p + size p = base n →
    base n ≤ a → attr (glue p n) a = attr n a
  merges_glue_left : ∀ p n x : α, Merges p n → (Merges (glue p n) x ↔ Merges n x)
  merges_glue_right : ∀ x p n : α, Merges x (glue p n) ↔ Merges x p

export Lawful (base_glue size_glue attr_glue_left attr_glue_right merges_glue_left
  merges_glue_right)

variable {α : Type u} {β : Type v} [Segment α β]

/-! ## Tilings and the attribute of an address -/

/-- `vs` covers `[lo, hi)` segment after segment, and no segment is empty. -/
def Tiles : Nat → List α → Nat → Prop
  | lo, [], hi => lo = hi
  | lo, v :: vs, hi => base v = lo ∧ 0 < size v ∧ Tiles (lo + size v) vs hi

/-- The segment `v` covers the address `a`. -/
def Covers (v : α) (a : Nat) : Prop := base v ≤ a ∧ a < base v + size v

instance (v : α) (a : Nat) : Decidable (Covers v a) :=
  inferInstanceAs (Decidable (_ ∧ _))

/-- The attribute that the segments `vs` give to the address `a`. -/
def view (vs : List α) (a : Nat) : Option β :=
  (vs.find? fun v => decide (Covers v a)).map fun v => attr v a

/-- No two neighbours can be merged. -/
def Separated (vs : List α) : Prop := vs.IsChain fun p n => ¬ Merges p n

variable {xs ys : List α} {a mid' : Nat} {c n w x : α}

theorem tiles_append {lo hi : Nat} :
    Tiles lo (xs ++ ys) hi ↔ ∃ mid, Tiles lo xs mid ∧ Tiles mid ys hi := by
  induction xs generalizing lo with
  | nil => simp [Tiles]
  | cons v vs ih =>
    simp only [List.cons_append, Tiles, ih]
    constructor
    · rintro ⟨hb, hs, mid, h₁, h₂⟩
      exact ⟨mid, ⟨hb, hs, h₁⟩, h₂⟩
    · rintro ⟨mid, ⟨hb, hs, h₁⟩, h₂⟩
      exact ⟨hb, hs, mid, h₁, h₂⟩

theorem tiles_singleton {v : α} {lo hi : Nat} :
    Tiles lo [v] hi ↔ base v = lo ∧ 0 < size v ∧ lo + size v = hi := by
  simp [Tiles]

theorem tiles_cons {v : α} {vs : List α} {lo hi : Nat} :
    Tiles lo (v :: vs) hi ↔ ∃ mid, Tiles lo [v] mid ∧ Tiles mid vs hi := by
  rw [← singleton_append, tiles_append]

theorem Tiles.le {vs : List α} {lo hi : Nat} (h : Tiles lo vs hi) : lo ≤ hi := by
  induction vs generalizing lo with
  | nil => exact Nat.le_of_eq h
  | cons v vs ih => exact Nat.le_trans (Nat.le_add_right _ _) (ih h.2.2)

theorem Tiles.end_unique {vs : List α} {lo hi hi' : Nat} (h : Tiles lo vs hi)
    (h' : Tiles lo vs hi') : hi = hi' := by
  induction vs generalizing lo with
  | nil => exact Eq.trans (Eq.symm h) h'
  | cons v vs ih => exact ih h.2.2 h'.2.2

theorem Tiles.eq_nil {vs : List α} {lo : Nat} (h : Tiles lo vs lo) : vs = [] := by
  cases vs with
  | nil => rfl
  | cons v vs =>
    have hle := h.2.2.le
    have hpos := h.2.1
    omega

theorem Tiles.mem_bounds {vs : List α} {lo hi : Nat} (h : Tiles lo vs hi) {v : α}
    (hv : v ∈ vs) : lo ≤ base v ∧ 0 < size v ∧ base v + size v ≤ hi := by
  induction vs generalizing lo with
  | nil => simp at hv
  | cons w ws ih =>
    obtain ⟨hb, hs, ht⟩ := h
    rcases List.mem_cons.mp hv with rfl | hv
    · have := ht.le
      omega
    · have := ih ht hv
      omega

@[simp] theorem view_nil (a : Nat) : view ([] : List α) a = none := rfl

theorem view_append (xs ys : List α) (a : Nat) :
    view (xs ++ ys) a = (view xs a).or (view ys a) := by
  unfold view
  rw [List.find?_append]
  cases xs.find? fun v => decide (Covers v a) <;> rfl

theorem view_cons (v : α) (vs : List α) (a : Nat) :
    view (v :: vs) a = if Covers v a then some (attr v a) else view vs a := by
  unfold view
  rw [List.find?_cons]
  by_cases h : Covers v a <;> simp [h]

theorem view_singleton (v : α) (a : Nat) :
    view [v] a = if Covers v a then some (attr v a) else none := by
  rw [view_cons, view_nil]

/-- A tiling has nothing to say outside its bounds. -/
theorem Tiles.view_eq_none {vs : List α} {lo hi : Nat} (h : Tiles lo vs hi) (ha : a < lo ∨ hi ≤ a) :
    view vs a = none := by
  unfold view
  rw [Option.map_eq_none_iff, List.find?_eq_none]
  intro v hv
  have hb := h.mem_bounds hv
  rw [decide_eq_true_eq]
  unfold Covers
  omega

/-- A tiling covers every address inside its bounds. -/
theorem Tiles.view_isSome {vs : List α} {lo hi : Nat} (h : Tiles lo vs hi) (hlo : lo ≤ a)
    (hhi : a < hi) : (view vs a).isSome := by
  induction vs generalizing lo with
  | nil =>
    have : lo = hi := h
    omega
  | cons v vs ih =>
    obtain ⟨hb, hs, ht⟩ := h
    rw [view_cons]
    by_cases hc : Covers v a
    · simp [hc]
    · rw [if_neg hc]
      refine ih ht ?_
      unfold Covers at hc
      omega

theorem Tiles.exists_cover {vs : List α} {lo hi : Nat} (h : Tiles lo vs hi) (hlo : lo ≤ a)
    (hhi : a < hi) : ∃ xs v ys, vs = xs ++ v :: ys ∧ Covers v a := by
  induction vs generalizing lo with
  | nil =>
    obtain rfl : lo = hi := h
    omega
  | cons v vs ih =>
    obtain ⟨hb, hs, ht⟩ := h
    by_cases hc : Covers v a
    · exact ⟨[], v, vs, rfl, hc⟩
    · obtain ⟨xs, w, ys, rfl, hw⟩ := ih ht (by unfold Covers at hc; omega)
      exact ⟨v :: xs, w, ys, rfl, hw⟩

/-- The segment across an address gives it its attribute. -/
theorem Tiles.view_eq {v : α} {lo hi : Nat} (h : Tiles lo (xs ++ v :: ys) hi) (hv : Covers v a) :
    view (xs ++ v :: ys) a = some (attr v a) := by
  obtain ⟨m, hxs, hb, -⟩ := tiles_append.mp h
  unfold Covers at hv
  rw [view_append, hxs.view_eq_none (Or.inr (by omega)), Option.none_or, view_cons,
    if_pos (by unfold Covers; omega)]

/-- What is true of every segment that overlaps a range is true at every address of it. -/
theorem Tiles.forall_overlap {vs : List α} {lo hi target e : Nat} (h : Tiles lo vs hi)
    (hlo : lo ≤ target) (hne : target < e) (hhi : e ≤ hi) {Q : α → Prop} {R : β → Prop}
    (hQ : ∀ v a, Covers v a → (R (attr v a) ↔ Q v)) :
    (∀ w ∈ vs, target < base w + size w → base w < e → Q w) ↔
      ∀ a, target ≤ a → a < e → ∃ p, view vs a = some p ∧ R p := by
  constructor
  · intro hall a ha hae
    obtain ⟨xs, v, ys, rfl, hv⟩ := h.exists_cover (Nat.le_trans hlo ha) (Nat.lt_of_lt_of_le hae hhi)
    have hlt := hv.1
    have hlt' := hv.2
    exact ⟨_, h.view_eq hv, (hQ v a hv).mpr (hall v (by simp) (by omega) (by omega))⟩
  · intro hall w hw hlt hlt'
    obtain ⟨xs, ys, rfl⟩ := List.append_of_mem hw
    have hpos := (h.mem_bounds hw).2.1
    have hcov : Covers w (max target (base w)) := ⟨by omega, by omega⟩
    obtain ⟨p, hp, hr⟩ := hall (max target (base w)) (by omega) (by omega)
    rw [h.view_eq hcov] at hp
    obtain rfl := Option.some.inj hp
    exact (hQ w _ hcov).mp hr

/-- The attributes of three adjoining parts, those of the middle one rewritten. -/
theorem Tiles.view_rewrite {ms : List α} {lo mid hi : Nat} (hx : Tiles lo xs mid)
    (hm : Tiles mid ms mid') (hy : Tiles mid' ys hi) (g : β → β) (a : Nat) :
    (view xs a).or (((view ms a).map g).or (view ys a)) =
      if mid ≤ a ∧ a < mid' then (view (xs ++ (ms ++ ys)) a).map g
      else view (xs ++ (ms ++ ys)) a := by
  rw [view_append, view_append]
  split_ifs with ha
  · rw [hx.view_eq_none (Or.inr ha.1), hy.view_eq_none (Or.inl ha.2)]
    simp
  · rw [hm.view_eq_none (by omega)]
    simp

theorem separated_append :
    Separated (xs ++ ys) ↔ Separated xs ∧ Separated ys ∧
      ∀ p ∈ xs.getLast?, ∀ n ∈ ys.head?, ¬ Merges p n :=
  List.isChain_append

theorem separated_cons {v : α} {vs : List α} :
    Separated (v :: vs) ↔ (∀ n ∈ vs.head?, ¬ Merges v n) ∧ Separated vs :=
  List.isChain_cons

/-! ## Cutting a segment -/

/-- `v` is cut at the address `mid` into `l` and `r`, which together say what `v` said. -/
structure Cut (v : α) (mid : Nat) (l r : α) : Prop where
  base_left : base l = base v
  base_right : base r = mid
  end_left : base l + size l = mid
  end_right : base r + size r = base v + size v
  inside : base v < mid ∧ mid < base v + size v
  attr_left : ∀ a, attr l a = attr v a
  attr_right : ∀ a, mid ≤ a → attr r a = attr v a
  merges : Merges l r
  merges_left : ∀ p, Merges p l ↔ Merges p v
  merges_right : ∀ n, Merges r n ↔ Merges v n

variable {v l r : α} {mid : Nat}

theorem Cut.tiles (h : Cut v mid l r) {lo hi : Nat} (ht : Tiles lo (xs ++ v :: ys) hi) :
    Tiles lo (xs ++ [l]) mid ∧ Tiles mid (r :: ys) hi := by
  obtain ⟨m, hxs, hb, -, hys⟩ := tiles_append.mp ht
  have hl := h.base_left
  have hr := h.base_right
  have he := h.end_left
  have he' := h.end_right
  have hi := h.inside
  refine ⟨tiles_append.mpr ⟨m, hxs, tiles_singleton.mpr ⟨by omega, by omega, by omega⟩⟩,
    by omega, by omega, ?_⟩
  rwa [show mid + size r = m + size v by omega]

theorem Cut.view (h : Cut v mid l r) (a : Nat) : view [l, r] a = view [v] a := by
  have hl := h.base_left
  have hr := h.base_right
  have he := h.end_left
  have he' := h.end_right
  rw [view_cons, view_singleton, view_singleton]
  by_cases hv : Covers v a
  · rw [if_pos hv]
    by_cases ha : Covers l a
    · rw [if_pos ha, h.attr_left]
    · have hra : Covers r a := by
        unfold Covers at *
        omega
      rw [if_neg ha, if_pos hra, h.attr_right a (by unfold Covers at *; omega)]
  · have hnl : ¬ Covers l a := by
      unfold Covers at *
      omega
    have hnr : ¬ Covers r a := by
      unfold Covers at *
      omega
    rw [if_neg hnl, if_neg hnr, if_neg hv]

theorem Cut.view_append (h : Cut v mid l r) (xs ys : List α) (a : Nat) :
    Segment.view (xs ++ l :: r :: ys) a = Segment.view (xs ++ v :: ys) a := by
  have hlr : xs ++ l :: r :: ys = xs ++ ([l, r] ++ ys) := rfl
  have hv : xs ++ v :: ys = xs ++ ([v] ++ ys) := rfl
  rw [hlr, hv]
  simp only [Segment.view_append, h.view]

/-- The part left of a cut is as separated as the list was. -/
theorem Cut.separated_left (h : Cut v mid l r) (hs : Separated (xs ++ v :: ys)) :
    Separated (xs ++ [l]) := by
  obtain ⟨hxs, -, hlast⟩ := separated_append.mp hs
  refine separated_append.mpr ⟨hxs, List.isChain_singleton _, fun p hp n hn => ?_⟩
  obtain rfl : l = n := by simpa using hn
  exact fun hm => hlast p hp v rfl ((h.merges_left p).mp hm)

/-- The part right of a cut is as separated as the list was. -/
theorem Cut.separated_right (h : Cut v mid l r) (hs : Separated (xs ++ v :: ys)) :
    Separated (r :: ys) := by
  obtain ⟨-, hys, -⟩ := separated_append.mp hs
  obtain ⟨hhead, hrest⟩ := separated_cons.mp hys
  exact separated_cons.mpr ⟨fun n hn hm => hhead n hn ((h.merges_right n).mp hm), hrest⟩

/-- `vs`, a tiling of `[lo, hi)`, divided at the address `mid` into `ls` and `rs`: between
two segments, or by cutting the segment across `mid`. -/
inductive DividesAt (lo hi : Nat) : List α → Nat → List α → List α → Prop
  | between {ls rs : List α} {mid : Nat} :
      Tiles lo ls mid → Tiles mid rs hi → DividesAt lo hi (ls ++ rs) mid ls rs
  | across {xs ys : List α} {v l r : α} {mid : Nat} :
      Tiles lo (xs ++ v :: ys) hi → Cut v mid l r →
        DividesAt lo hi (xs ++ v :: ys) mid (xs ++ [l]) (r :: ys)

section DividesAt

variable {vs ls rs : List α} {lo hi : Nat}

theorem DividesAt.tiles (h : DividesAt lo hi vs mid ls rs) :
    Tiles lo ls mid ∧ Tiles mid rs hi := by
  cases h with
  | between hl hr => exact ⟨hl, hr⟩
  | across ht hc => exact hc.tiles ht

theorem DividesAt.view (h : DividesAt lo hi vs mid ls rs) (a : Nat) :
    (Segment.view ls a).or (Segment.view rs a) = Segment.view vs a := by
  rw [← Segment.view_append]
  cases h with
  | between => rfl
  | @across xs ys v l r _ _ hc =>
    rw [List.append_assoc]
    exact hc.view_append xs ys a

/-- A segment is on one side of a division, or a part of it is on either side. -/
theorem DividesAt.mem (h : DividesAt lo hi vs mid ls rs) (hw : w ∈ vs) :
    w ∈ ls ∨ w ∈ rs ∨ (∃ l ∈ ls, ∀ a, attr l a = attr w a) ∧
      ∃ r, rs.head? = some r ∧ ∀ a, mid ≤ a → attr r a = attr w a := by
  cases h with
  | between =>
    rcases mem_append.mp hw with hl | hr
    · exact Or.inl hl
    · exact Or.inr (Or.inl hr)
  | across _ hc =>
    rcases mem_append.mp hw with hx | hv
    · exact Or.inl (List.mem_append_left _ hx)
    rcases List.mem_cons.mp hv with rfl | hy
    · exact Or.inr (Or.inr ⟨⟨_, by simp, hc.attr_left⟩, ⟨_, rfl, hc.attr_right⟩⟩)
    · exact Or.inr (Or.inl (mem_cons_of_mem _ hy))

/-- The first segment in front of a division is the first one of all, or a part of it. -/
theorem DividesAt.head_left (h : DividesAt lo hi vs mid ls rs) (hne : ls ≠ [])
    (hw : vs.head? = some w) : ∃ l ∈ ls, ∀ a, attr l a = attr w a := by
  cases h with
  | between =>
    obtain ⟨x, xs, rfl⟩ := List.exists_cons_of_ne_nil hne
    obtain rfl : x = w := by simpa using hw
    exact ⟨x, by simp, fun _ => rfl⟩
  | @across xs ys v l r _ _ hc =>
    cases xs with
    | nil =>
      obtain rfl : v = w := by simpa using hw
      exact ⟨l, by simp, hc.attr_left⟩
    | cons x xs =>
      obtain rfl : x = w := by simpa using hw
      exact ⟨x, by simp, fun _ => rfl⟩

/-- The last segment in front of a division is the start of one that was there. -/
theorem DividesAt.origin_left (h : DividesAt lo hi vs mid ls rs) {l : α}
    (hl : ls.getLast? = some l) :
    ∃ w ∈ vs, base w = base l ∧ mid ≤ base w + size w ∧ ∀ a, attr l a = attr w a := by
  cases h with
  | between hlt _ =>
    obtain ⟨ys, rfl⟩ := List.getLast?_eq_some_iff.mp hl
    obtain ⟨m, -, hlast⟩ := tiles_append.mp hlt
    obtain ⟨hb, -, he⟩ := tiles_singleton.mp hlast
    exact ⟨l, by simp, rfl, by omega, fun _ => rfl⟩
  | @across xs ys v l' r _ _ hc =>
    obtain rfl : l' = l := by simpa using hl
    have hin := hc.inside
    exact ⟨v, by simp, hc.base_left.symm, by omega, hc.attr_left⟩

/-- The first segment behind a division is the end of one that was there. -/
theorem DividesAt.origin_right (h : DividesAt lo hi vs mid ls rs) {r : α} (hr : rs.head? = some r) :
    ∃ w ∈ vs, base w ≤ mid ∧ base w + size w = base r + size r ∧
      ∀ a, mid ≤ a → attr r a = attr w a := by
  cases h with
  | between _ hrt =>
    obtain ⟨ys, rfl⟩ := List.head?_eq_some_iff.mp hr
    exact ⟨r, by simp, Nat.le_of_eq hrt.1, rfl, fun _ _ => rfl⟩
  | @across xs ys v l r' _ _ hc =>
    obtain rfl : r' = r := by simpa using hr
    have hin := hc.inside
    exact ⟨v, by simp, by omega, hc.end_right.symm, hc.attr_right⟩

theorem DividesAt.separated (h : DividesAt lo hi vs mid ls rs) (hs : Separated vs) :
    Separated ls ∧ Separated rs := by
  cases h with
  | between =>
    obtain ⟨hl, hr, -⟩ := separated_append.mp hs
    exact ⟨hl, hr⟩
  | across _ hc => exact ⟨hc.separated_left hs, hc.separated_right hs⟩

end DividesAt

/-- A segment of a tiling that reaches beyond the first part is in the second part. -/
theorem Tiles.split_of_lt {as bs pre rest : List α} {lo m : Nat} (ha : Tiles lo as m)
    (heq : as ++ bs = pre ++ w :: rest) (hw : m < base w + size w) :
    ∃ pre', pre = as ++ pre' ∧ bs = pre' ++ w :: rest := by
  rcases List.append_eq_append_iff.mp heq with ⟨pre', hpre, hbs⟩ | ⟨c, has, hrest⟩
  · exact ⟨pre', hpre, hbs⟩
  · cases c with
    | nil => exact ⟨[], by simpa using has.symm, by simpa using hrest.symm⟩
    | cons u c =>
      obtain ⟨rfl, -⟩ : w = u ∧ rest = c ++ bs := by simpa using hrest
      have := ha.mem_bounds (v := w) (by simp [has])
      omega

/-- What divides a list behind its first part divides the second part. -/
theorem DividesAt.of_append {done rs ls rest : List α} {lo mid hi e : Nat}
    (hd : Tiles lo done mid) (hrs : Tiles mid rs hi) (hlt : mid < e)
    (h : DividesAt lo hi (done ++ rs) e ls rest) :
    ∃ todo, ls = done ++ todo ∧ DividesAt mid hi rs e todo rest := by
  generalize hvs : done ++ rs = vs at h
  cases h with
  | between hl hr =>
    rcases List.append_eq_append_iff.mp hvs with ⟨todo, rfl, rfl⟩ | ⟨c, rfl, rfl⟩
    · obtain ⟨m, hrs', hl'⟩ := tiles_append.mp hrs
      obtain ⟨m', hd', htodo⟩ := tiles_append.mp hl
      obtain rfl : mid = m' := hd.end_unique hd'
      exact ⟨todo, rfl, .between htodo hr⟩
    · obtain ⟨m, hl', hc⟩ := tiles_append.mp hd
      obtain rfl : e = m := hl.end_unique hl'
      exact absurd hc.le (Nat.not_le.mpr hlt)
  | @across xs ys v l r _ ht hc =>
    have hin := hc.inside
    obtain ⟨pre, rfl, rfl⟩ := hd.split_of_lt hvs (by omega)
    exact ⟨pre ++ [l], by simp, .across hrs hc⟩

/-- Only one segment of a tiling covers an address. -/
theorem Tiles.cover_unique {pre post : List α} {v : α} {lo hi : Nat}
    (ht : Tiles lo (xs ++ v :: ys) hi) (heq : xs ++ v :: ys = pre ++ x :: post) (hv : Covers v a)
    (hx : Covers x a) : xs = pre ∧ v = x ∧ ys = post := by
  unfold Covers at hv hx
  obtain ⟨m, hxs, hb, hvs⟩ := tiles_append.mp ht
  obtain ⟨pre', rfl, hpre'⟩ := hxs.split_of_lt heq (by omega)
  obtain ⟨m', hpre, hb', hxs'⟩ := tiles_append.mp (heq ▸ ht)
  obtain ⟨m'', hxs'', hrest⟩ := tiles_append.mp hpre
  cases pre' with
  | nil =>
    obtain ⟨rfl, rfl⟩ : v = x ∧ ys = post := by simpa using hpre'
    exact ⟨by simp, rfl, rfl⟩
  | cons u pre' =>
    obtain ⟨rfl, -⟩ : v = u ∧ ys = pre' ++ x :: post := by simpa using hpre'
    have := hrest.mem_bounds (v := v) (by simp)
    omega

/-! ## Appending a segment, merging it to the left

`push done c` is `done ++ [c]`, except that `c` is glued to the last segment of
`done` when the two can be merged.
-/

/-- Append `c` to `done`, merged into its left neighbour if possible. -/
def push (done : List α) (c : α) : List α :=
  match done.getLast? with
  | some p => if Merges p c then done.dropLast ++ [glue p c] else done ++ [c]
  | none => [c]

@[simp] theorem push_nil (c : α) : push [] c = [c] := rfl

theorem push_concat (xs : List α) (p c : α) :
    push (xs ++ [p]) c = if Merges p c then xs ++ [glue p c] else xs ++ [p, c] := by
  unfold push
  rw [List.getLast?_concat]
  simp

/-- Absorb the first of the segments to the right into `c` if possible. -/
def absorb (c : α) : List α → α × List α
  | [] => (c, [])
  | n :: rest => if Merges c n then (glue c n, rest) else (c, n :: rest)

theorem absorb_cons (c n : α) (rest : List α) :
    absorb c (n :: rest) = if Merges c n then (glue c n, rest) else (c, n :: rest) := rfl

/-- Put `c` between `done` and `rest`, merged with either neighbour where possible. -/
def settle (done : List α) (c : α) (rest : List α) : List α :=
  push done (absorb c rest).1 ++ (absorb c rest).2

/-! ## Sweeping over a range -/

/-- Update the segments `todo` one after the other. Each updated segment absorbs its
right neighbour (in `todo` or just after it) and is absorbed by its left one where the
two can be merged; the walk goes on behind what was absorbed. -/
def sweep (upd : α → α) : List α → List α → List α → List α
  | done, [], rest => done ++ rest
  | done, [x], [] => push done (upd x)
  | done, [x], n :: rest =>
    if Merges (upd x) n then push done (glue (upd x) n) ++ rest
    else push done (upd x) ++ n :: rest
  | done, x :: n :: todo, rest =>
    if Merges (upd x) n then sweep upd (push done (glue (upd x) n)) todo rest
    else sweep upd (push done (upd x)) (n :: todo) rest

/-- `upd` keeps a segment's place and rewrites its attributes by `f`; a segment that an
updated one can absorb already has the attributes the update would give it. -/
structure Update (upd : α → α) (f : β → β) : Prop where
  base_upd : ∀ v, base (upd v) = base v
  size_upd : ∀ v, size (upd v) = size v
  attr_upd : ∀ v a, attr (upd v) a = f (attr v a)
  absorbed : ∀ x n a, Merges (upd x) n → f (attr n a) = attr n a
  absorbed_merges : ∀ x n y, Merges (upd x) n → (Merges (upd n) y ↔ Merges n y)
  merges_cut : ∀ v mid l r, Cut v mid l r → ∀ n, Merges (upd r) n ↔ Merges (upd v) n

variable {upd : α → α} {f : β → β}

theorem Update.tiles_upd (hu : Update upd f) {lo hi : Nat} (h : Tiles lo [x] hi) :
    Tiles lo [upd x] hi := by
  rw [tiles_singleton] at h ⊢
  rwa [hu.base_upd, hu.size_upd]

theorem Update.view_upd (hu : Update upd f) (x : α) (a : Nat) :
    view [upd x] a = (view [x] a).map f := by
  rw [view_singleton, view_singleton]
  have hc : Covers (upd x) a ↔ Covers x a := by
    unfold Covers
    rw [hu.base_upd, hu.size_upd]
  by_cases h : Covers x a
  · rw [if_pos h, if_pos (hc.mpr h), hu.attr_upd]
    rfl
  · rw [if_neg h, if_neg (mt hc.mp h)]
    rfl

theorem Update.view_absorbed (hu : Update upd f) (hm : Merges (upd x) n) (a : Nat) :
    view [n] a = (view [n] a).map f := by
  rw [view_singleton]
  split_ifs
  · rw [Option.map_some, hu.absorbed x n a hm]
  · rfl

/-- The last segment of `todo` can be merged with the one after the range (it was cut
off from it), and the segment before it, once updated, absorbs it. The walk then goes
on behind the range and never compares the two. -/
def AbsorbsCut (upd : α → α) (todo rest : List α) : Prop :=
  ∃ pre w x n post, todo = pre ++ [w, x] ∧ rest = n :: post ∧ Merges x n ∧ Merges (upd w) x

/-- The range from `target` to `e` ends inside a segment `x` that starts inside the range,
and that the segment before it absorbs once it is updated. -/
def EndsInAbsorbed (upd : α → α) (vs : List α) (target e : Nat) : Prop :=
  ∃ pre w x post, vs = pre ++ w :: x :: post ∧ target < base x ∧ base x < e ∧
    e < base x + size x ∧ Merges (upd w) x

section AbsorbsCut

variable {vs done todo rest : List α} {lo hi target e : Nat}

theorem absorbsCut_iff_right (hs : Separated vs) (h : DividesAt target hi vs e todo rest) :
    AbsorbsCut upd todo rest ↔ EndsInAbsorbed upd vs target e := by
  constructor
  · rintro ⟨pre, w, x, n, post, htodo, hrest, hxn, hwx⟩
    cases h with
    | between =>
      obtain ⟨-, -, hlast⟩ := separated_append.mp hs
      exact absurd hxn (hlast x (by simp [htodo]) n (by simp [hrest]))
    | @across xs ys v l r _ ht hc =>
      obtain ⟨rfl, rfl⟩ : xs = pre ++ [w] ∧ l = x := by
        rw [show pre ++ [w, x] = (pre ++ [w]) ++ [x] by simp] at htodo
        simpa using List.append_inj' htodo rfl
      obtain ⟨m, hpw, hb, -⟩ := tiles_append.mp ht
      have hw := hpw.mem_bounds (v := w) (by simp)
      have hin := hc.inside
      exact ⟨pre, w, v, ys, by simp, by omega, hin.1, hin.2, (hc.merges_left _).mp hwx⟩
  · rintro ⟨pre, w, x, post, hvs, hx, hxe, hex, hm⟩
    cases h with
    | between htodo hrest =>
      have heq : todo ++ rest = (pre ++ [w]) ++ x :: post := by simp [hvs]
      obtain ⟨pre', -, hrest'⟩ := htodo.split_of_lt heq hex
      have := hrest.mem_bounds (v := x) (by simp [hrest'])
      omega
    | @across xs ys v l r _ ht hc =>
      have heq : xs ++ v :: ys = (pre ++ [w]) ++ x :: post := by simp [hvs]
      have hin := hc.inside
      obtain ⟨rfl, rfl, rfl⟩ := ht.cover_unique heq ⟨Nat.le_of_lt hin.1, hin.2⟩
        ⟨Nat.le_of_lt hxe, hex⟩
      exact ⟨pre, w, l, r, ys, by simp, rfl, hc.merges, (hc.merges_left _).mpr hm⟩

theorem endsInAbsorbed_iff (hu : Update upd f) {rs : List α}
    (h : DividesAt lo hi vs target done rs) :
    EndsInAbsorbed upd rs target e ↔ EndsInAbsorbed upd vs target e := by
  constructor
  · rintro ⟨pre, w, x, post, hrs, hx⟩
    cases h with
    | between => exact ⟨done ++ pre, w, x, post, by simp [hrs], hx⟩
    | @across xs ys v l r _ ht hc =>
      cases pre with
      | nil =>
        obtain ⟨rfl, rfl⟩ : r = w ∧ ys = x :: post := by simpa using hrs
        exact ⟨xs, v, x, post, rfl, hx.1, hx.2.1, hx.2.2.1,
          (hu.merges_cut v target l r hc x).mp hx.2.2.2⟩
      | cons u pre =>
        obtain ⟨rfl, rfl⟩ : r = u ∧ ys = pre ++ w :: x :: post := by simpa using hrs
        exact ⟨xs ++ v :: pre, w, x, post, by simp, hx⟩
  · rintro ⟨pre, w, x, post, hvs, hx⟩
    have hadj : ∀ {lo hi : Nat}, Tiles lo (pre ++ w :: x :: post) hi →
        base w + size w = base x := by
      intro lo hi ht
      obtain ⟨m, -, hbw, -, hbx, -⟩ := tiles_append.mp ht
      omega
    cases h with
    | between hd hrs =>
      have ht := tiles_append.mpr ⟨target, hd, hrs⟩
      rw [hvs] at ht
      have := hadj ht
      obtain ⟨pre', -, hrs'⟩ := hd.split_of_lt hvs (by omega)
      exact ⟨pre', w, x, post, hrs', hx⟩
    | @across xs ys v l r _ ht hc =>
      have ht' := ht
      rw [hvs] at ht'
      have := hadj ht'
      have hin := hc.inside
      obtain ⟨m, hxs, hb, -⟩ := tiles_append.mp ht
      obtain ⟨pre', -, hpre'⟩ := hxs.split_of_lt hvs (by omega)
      cases pre' with
      | nil =>
        obtain ⟨rfl, rfl⟩ : v = w ∧ ys = x :: post := by simpa using hpre'
        exact ⟨[], r, x, post, rfl, hx.1, hx.2.1, hx.2.2.1,
          (hu.merges_cut v target l r hc x).mpr hx.2.2.2⟩
      | cons u pre' =>
        obtain ⟨rfl, rfl⟩ : v = u ∧ ys = pre' ++ w :: x :: post := by simpa using hpre'
        exact ⟨r :: pre', w, x, post, rfl, hx⟩

end AbsorbsCut

/-! ## What a push and a sweep preserve -/

variable [Lawful α]

theorem tiles_push {done : List α} {lo mid hi : Nat} (hd : Tiles lo done mid)
    (hc : Tiles mid [c] hi) : Tiles lo (push done c) hi := by
  rcases eq_nil_or_concat done with rfl | ⟨xs, p, rfl⟩
  · obtain rfl : lo = mid := hd
    exact hc
  · rw [concat_eq_append] at hd ⊢
    rw [push_concat]
    split_ifs with hm
    · obtain ⟨m, hxs, hp⟩ := tiles_append.mp hd
      obtain ⟨hb, hs, he⟩ := tiles_singleton.mp hp
      obtain ⟨hb', hs', he'⟩ := tiles_singleton.mp hc
      refine tiles_append.mpr ⟨m, hxs, tiles_singleton.mpr ⟨?_, ?_, ?_⟩⟩
      · rw [base_glue, hb]
      · rw [size_glue]
        omega
      · rw [size_glue]
        omega
    · rw [show xs ++ [p, c] = (xs ++ [p]) ++ [c] by simp]
      exact tiles_append.mpr ⟨mid, hd, hc⟩

/-- Gluing two neighbours changes no attribute. -/
theorem view_glue {p : α} (hm : Merges p n) (hadj : base p + size p = base n) (a : Nat) :
    view [glue p n] a = (view [p] a).or (view [n] a) := by
  simp only [view_singleton]
  have hcov : Covers (glue p n) a ↔ Covers p a ∨ Covers n a := by
    unfold Covers
    rw [base_glue, size_glue]
    omega
  by_cases hp : Covers p a
  · rw [if_pos (hcov.mpr (Or.inl hp)), if_pos hp, attr_glue_left]
    rfl
  · by_cases hn : Covers n a
    · rw [if_pos (hcov.mpr (Or.inr hn)), if_neg hp, if_pos hn, attr_glue_right p n a hm hadj hn.1]
      rfl
    · rw [if_neg (by rw [hcov]; tauto), if_neg hp, if_neg hn]
      rfl

theorem view_push {done : List α} {lo mid hi : Nat} (hd : Tiles lo done mid) (hc : Tiles mid [c] hi)
    (a : Nat) : view (push done c) a = (view done a).or (view [c] a) := by
  rcases eq_nil_or_concat done with rfl | ⟨xs, p, rfl⟩
  · simp
  · rw [concat_eq_append] at hd ⊢
    rw [push_concat]
    split_ifs with hm
    · obtain ⟨m, -, hp⟩ := tiles_append.mp hd
      obtain ⟨hb, -, he⟩ := tiles_singleton.mp hp
      obtain ⟨hb', -, -⟩ := tiles_singleton.mp hc
      have hadj : base p + size p = base c := by omega
      rw [view_append, view_append, view_glue hm hadj, Option.or_assoc]
    · rw [show xs ++ [p, c] = (xs ++ [p]) ++ [c] by simp, view_append]

/-- The last segment after a `push` merges to the right as the pushed one. -/
theorem push_getLast (done : List α) (c : α) :
    ∃ xs l, push done c = xs ++ [l] ∧ ∀ n, Merges l n ↔ Merges c n := by
  rcases eq_nil_or_concat done with rfl | ⟨xs, p, rfl⟩
  · exact ⟨[], c, rfl, fun _ => Iff.rfl⟩
  · rw [concat_eq_append, push_concat]
    split_ifs with hm
    · exact ⟨xs, glue p c, rfl, fun n => merges_glue_left p c n hm⟩
    · exact ⟨xs ++ [p], c, by simp, fun _ => Iff.rfl⟩

theorem separated_push {done : List α} (hd : Separated done) (c : α) :
    Separated (push done c) := by
  rcases eq_nil_or_concat done with rfl | ⟨xs, p, rfl⟩
  · exact List.isChain_singleton c
  · rw [concat_eq_append] at hd ⊢
    rw [push_concat]
    obtain ⟨hxs, -, hlast⟩ := separated_append.mp hd
    split_ifs with hm
    · refine separated_append.mpr ⟨hxs, List.isChain_singleton _, fun q hq n hn => ?_⟩
      obtain rfl : glue p c = n := by simpa using hn
      rw [merges_glue_right]
      exact hlast q hq p rfl
    · rw [show xs ++ [p, c] = (xs ++ [p]) ++ [c] by simp]
      refine separated_append.mpr ⟨hd, List.isChain_singleton _, fun q hq n hn => ?_⟩
      obtain rfl : p = q := by simpa using hq
      obtain rfl : c = n := by simpa using hn
      exact hm

/-- A separated list stays separated when a push is followed by what its segment does
not merge with. -/
theorem separated_push_append {done rest : List α} (hd : Separated done) (hr : Separated rest)
    (hc : ∀ n ∈ rest.head?, ¬ Merges c n) : Separated (push done c ++ rest) := by
  obtain ⟨xs, l, hpush, hl⟩ := push_getLast done c
  refine separated_append.mpr ⟨separated_push hd c, hr, fun q hq n hn => ?_⟩
  rw [hpush, List.getLast?_concat] at hq
  obtain rfl : l = q := by simpa using hq
  rw [hl]
  exact hc n hn

theorem tiles_glue {p : α} {lo mid hi : Nat} (hp : Tiles lo [p] mid) (hn : Tiles mid [n] hi) :
    Tiles lo [glue p n] hi := by
  obtain ⟨hb, hs, he⟩ := tiles_singleton.mp hp
  obtain ⟨hb', hs', he'⟩ := tiles_singleton.mp hn
  refine tiles_singleton.mpr ⟨?_, ?_, ?_⟩
  · rw [base_glue, hb]
  · rw [size_glue]
    omega
  · rw [size_glue]
    omega

theorem tiles_absorb {done rest : List α} {lo hi : Nat} (h : Tiles lo (done ++ c :: rest) hi) :
    Tiles lo (done ++ (absorb c rest).1 :: (absorb c rest).2) hi := by
  cases rest with
  | nil => exact h
  | cons n rest =>
    rw [absorb_cons]
    split_ifs with hm
    · obtain ⟨m, hdone, h⟩ := tiles_append.mp h
      obtain ⟨m', hc, h⟩ := tiles_cons.mp h
      obtain ⟨m'', hn, hrest⟩ := tiles_cons.mp h
      exact tiles_append.mpr ⟨m, hdone, tiles_cons.mpr ⟨m'', tiles_glue hc hn, hrest⟩⟩
    · exact h

theorem view_absorb {rest : List α} {lo hi : Nat} (h : Tiles lo (c :: rest) hi) (a : Nat) :
    view ((absorb c rest).1 :: (absorb c rest).2) a = view (c :: rest) a := by
  cases rest with
  | nil => rfl
  | cons n rest =>
    rw [absorb_cons]
    split_ifs with hm
    · have hadj : base c + size c = base n := by rw [h.1, h.2.2.1]
      show view ([glue c n] ++ rest) a = view ([c] ++ ([n] ++ rest)) a
      simp only [view_append, view_glue hm hadj, Option.or_assoc]
    · rfl

/-- Settling a segment between its neighbours keeps the tiling. -/
theorem tiles_settle {done rest : List α} {lo hi : Nat} (h : Tiles lo (done ++ c :: rest) hi) :
    Tiles lo (settle done c rest) hi := by
  obtain ⟨m, hdone, h⟩ := tiles_append.mp (tiles_absorb h)
  obtain ⟨m', hc, hrest⟩ := tiles_cons.mp h
  exact tiles_append.mpr ⟨m', tiles_push hdone hc, hrest⟩

/-- Settling a segment between its neighbours changes no attribute. -/
theorem view_settle {done rest : List α} {lo hi : Nat} (h : Tiles lo (done ++ c :: rest) hi)
    (a : Nat) : view (settle done c rest) a = view (done ++ c :: rest) a := by
  obtain ⟨m, hdone, habs⟩ := tiles_append.mp (tiles_absorb h)
  obtain ⟨m', hc, -⟩ := tiles_cons.mp habs
  obtain ⟨m'', hdone', hcr⟩ := tiles_append.mp h
  unfold settle
  rw [view_append, view_push hdone hc, Option.or_assoc, ← view_append, singleton_append,
    view_absorb hcr, view_append]

theorem separated_settle {done rest : List α} (hd : Separated done) (hr : Separated rest) :
    Separated (settle done c rest) := by
  unfold settle
  cases rest with
  | nil => exact separated_push_append hd hr (by simp [absorb])
  | cons n rest =>
    rw [absorb_cons]
    obtain ⟨hn, hrest⟩ := separated_cons.mp hr
    split_ifs with hm
    · refine separated_push_append hd hrest fun y hy => ?_
      rw [merges_glue_left c n y hm]
      exact hn y hy
    · refine separated_push_append hd hr fun y hy => ?_
      obtain rfl : n = y := by simpa using hy
      exact hm

/-- A sweep keeps the tiling. -/
theorem sweep_tiles (hu : Update upd f) {lo mid hi : Nat} (done todo rest : List α)
    (hd : Tiles lo done mid) (ht : Tiles mid todo mid') (hr : Tiles mid' rest hi) :
    Tiles lo (sweep upd done todo rest) hi := by
  induction done, todo, rest using sweep.induct upd generalizing mid with
  | case1 done rest =>
    obtain rfl : mid = mid' := ht
    exact tiles_append.mpr ⟨mid, hd, hr⟩
  | case2 done x =>
    obtain rfl : mid' = hi := hr
    exact tiles_push hd (hu.tiles_upd ht)
  | case3 done x n rest hm =>
    rw [sweep, if_pos hm]
    obtain ⟨m, hn, hrest⟩ := tiles_cons.mp hr
    exact tiles_append.mpr ⟨m, tiles_push hd (tiles_glue (hu.tiles_upd ht) hn), hrest⟩
  | case4 done x n rest hm =>
    rw [sweep, if_neg hm]
    exact tiles_append.mpr ⟨mid', tiles_push hd (hu.tiles_upd ht), hr⟩
  | case5 done x n todo rest hm ih =>
    rw [sweep, if_pos hm]
    obtain ⟨m, hx, hnt⟩ := tiles_cons.mp ht
    obtain ⟨m', hn, htodo⟩ := tiles_cons.mp hnt
    exact ih (tiles_push hd (tiles_glue (hu.tiles_upd hx) hn)) htodo hr
  | case6 done x n todo rest hm ih =>
    rw [sweep, if_neg hm]
    obtain ⟨m, hx, hnt⟩ := tiles_cons.mp ht
    exact ih (tiles_push hd (hu.tiles_upd hx)) hnt hr

/-- A sweep rewrites the attributes of the range it walks over and no others. -/
theorem view_sweep (hu : Update upd f) {lo mid hi : Nat} (done todo rest : List α)
    (hd : Tiles lo done mid) (ht : Tiles mid todo mid') (hr : Tiles mid' rest hi) (a : Nat) :
    view (sweep upd done todo rest) a =
      (view done a).or (((view todo a).map f).or (view rest a)) := by
  have hglue : ∀ {x n : α} {lo mid hi : Nat}, Merges (upd x) n → Tiles lo [x] mid →
      Tiles mid [n] hi → view [glue (upd x) n] a = ((view [x] a).map f).or (view [n] a) := by
    intro x n lo mid hi hm hx hn
    obtain ⟨hb, -, he⟩ := tiles_singleton.mp hx
    obtain ⟨hb', -, -⟩ := tiles_singleton.mp hn
    have hadj : base (upd x) + size (upd x) = base n := by
      rw [hu.base_upd, hu.size_upd]
      omega
    rw [view_glue hm hadj, hu.view_upd]
  induction done, todo, rest using sweep.induct upd generalizing mid with
  | case1 done rest => simp [sweep, view_append]
  | case2 done x =>
    rw [sweep, view_push hd (hu.tiles_upd ht), hu.view_upd]
    simp
  | case3 done x n rest hm =>
    obtain ⟨m, hn, -⟩ := tiles_cons.mp hr
    rw [sweep, if_pos hm, view_append, view_push hd (tiles_glue (hu.tiles_upd ht) hn),
      hglue hm ht hn, ← singleton_append (l := rest), view_append]
    simp only [Option.or_assoc]
  | case4 done x n rest hm =>
    rw [sweep, if_neg hm, view_append, view_push hd (hu.tiles_upd ht), hu.view_upd]
    simp only [Option.or_assoc]
  | case5 done x n todo rest hm ih =>
    obtain ⟨m, hx, hnt⟩ := tiles_cons.mp ht
    obtain ⟨m', hn, htodo⟩ := tiles_cons.mp hnt
    have hc := tiles_glue (hu.tiles_upd hx) hn
    rw [sweep, if_pos hm, ih (tiles_push hd hc) htodo hr, view_push hd hc, hglue hm hx hn,
      ← singleton_append (l := n :: todo), ← singleton_append (l := todo),
      view_append, view_append, Option.map_or, Option.map_or, ← hu.view_absorbed hm]
    simp only [Option.or_assoc]
  | case6 done x n todo rest hm ih =>
    obtain ⟨m, hx, hnt⟩ := tiles_cons.mp ht
    have hc := hu.tiles_upd hx
    rw [sweep, if_neg hm, ih (tiles_push hd hc) hnt hr, view_push hd hc, hu.view_upd,
      ← singleton_append (l := n :: todo), view_append, Option.map_or]
    simp only [Option.or_assoc]

/-- A sweep leaves no mergeable pair behind, unless it absorbs a cut-off segment. -/
theorem sweep_separated (done todo rest : List α) (hd : Separated done) (ht : Separated todo)
    (hr : Separated rest) (hcut : ¬ AbsorbsCut upd todo rest)
    (hnil : todo = [] → Separated (done ++ rest)) :
    Separated (sweep upd done todo rest) := by
  induction done, todo, rest using sweep.induct upd with
  | case1 done rest => exact hnil rfl
  | case2 done x => exact separated_push hd _
  | case3 done x n rest hm =>
    rw [sweep, if_pos hm]
    obtain ⟨hn, hrest⟩ := separated_cons.mp hr
    refine separated_push_append hd hrest fun y hy => ?_
    rw [merges_glue_left _ _ _ hm]
    exact hn y hy
  | case4 done x n rest hm =>
    rw [sweep, if_neg hm]
    refine separated_push_append hd hr fun y hy => ?_
    obtain rfl : n = y := by simpa using hy
    exact hm
  | case5 done x n todo rest hm ih =>
    rw [sweep, if_pos hm]
    obtain ⟨-, hnt⟩ := separated_cons.mp ht
    obtain ⟨hn, htodo⟩ := separated_cons.mp hnt
    refine ih (separated_push hd _) htodo hr ?_ ?_
    · rintro ⟨pre, w, y, m, post, rfl, rfl, h⟩
      exact hcut ⟨x :: n :: pre, w, y, m, post, rfl, rfl, h⟩
    · -- `n` ends the range: it was not cut off, or `x` would have absorbed a cut-off segment
      rintro rfl
      refine separated_push_append hd hr fun y hy => ?_
      rw [merges_glue_left _ _ _ hm]
      cases rest with
      | nil => simp at hy
      | cons m post =>
        obtain rfl : m = y := by simpa using hy
        exact fun hy' => hcut ⟨[], x, n, m, post, rfl, rfl, hy', hm⟩
  | case6 done x n todo rest hm ih =>
    rw [sweep, if_neg hm]
    obtain ⟨-, hnt⟩ := separated_cons.mp ht
    refine ih (separated_push hd _) hnt hr ?_ (by simp)
    rintro ⟨pre, w, y, m, post, heq, rfl, h⟩
    exact hcut ⟨x :: pre, w, y, m, post, by rw [heq]; rfl, rfl, h⟩

/-- A sweep that absorbs a cut-off segment does leave a mergeable pair behind. -/
theorem sweep_not_separated (hu : Update upd f) (done todo rest : List α)
    (ht : Separated todo) (hcut : AbsorbsCut upd todo rest) :
    ¬ Separated (sweep upd done todo rest) := by
  induction done, todo, rest using sweep.induct upd with
  | case1 done rest =>
    obtain ⟨pre, w, x, n, post, heq, -⟩ := hcut
    simp at heq
  | case2 done x =>
    obtain ⟨pre, w, x, n, post, -, heq, -⟩ := hcut
    simp at heq
  | case3 done x n rest hm =>
    obtain ⟨pre, w, x, n, post, heq, -⟩ := hcut
    have := congrArg List.length heq
    simp at this
  | case4 done x n rest hm =>
    obtain ⟨pre, w, x, n, post, heq, -⟩ := hcut
    have := congrArg List.length heq
    simp at this
  | case5 done x n todo rest hm ih =>
    rw [sweep, if_pos hm]
    obtain ⟨-, hnt⟩ := separated_cons.mp ht
    obtain ⟨hn, htodo⟩ := separated_cons.mp hnt
    obtain ⟨pre, w, y, m, post, heq, rfl, hym, hwy⟩ := hcut
    rcases pre with _ | ⟨p, _ | ⟨q, pre⟩⟩
    · -- the absorbed segment is the cut-off one
      obtain ⟨rfl, rfl, rfl⟩ : x = w ∧ n = y ∧ todo = [] := by simpa using heq
      obtain ⟨xs, l, hpush, hl⟩ := push_getLast done (glue (upd x) n)
      rw [sweep, separated_append]
      rintro ⟨-, -, hlast⟩
      refine hlast l (by simp [hpush]) m rfl ?_
      rw [hl, merges_glue_left _ _ _ hm]
      exact hym
    · -- an absorbed segment is as it would be after its update: it merges with nothing new
      obtain ⟨rfl, rfl, rfl⟩ : x = p ∧ n = w ∧ todo = [y] := by simpa using heq
      exact absurd ((hu.absorbed_merges x n y hm).mp hwy) (hn y rfl)
    · obtain ⟨rfl, rfl, rfl⟩ : x = p ∧ n = q ∧ todo = pre ++ [w, y] := by simpa using heq
      exact ih htodo ⟨pre, w, y, m, post, rfl, rfl, hym, hwy⟩
  | case6 done x n todo rest hm ih =>
    rw [sweep, if_neg hm]
    obtain ⟨-, hnt⟩ := separated_cons.mp ht
    obtain ⟨pre, w, y, m, post, heq, rfl, hym, hwy⟩ := hcut
    rcases pre with _ | ⟨p, pre⟩
    · obtain ⟨rfl, rfl, rfl⟩ : x = w ∧ n = y ∧ todo = [] := by simpa using heq
      exact absurd hwy hm
    · obtain ⟨rfl, htail⟩ : x = p ∧ n :: todo = pre ++ [w, y] := by simpa using heq
      exact ih hnt ⟨pre, w, y, m, post, htail, rfl, hym, hwy⟩

/-! ## What holds of every segment -/

section Forall

omit [Lawful α]

variable {P : α → Prop}

theorem forall_push (hg : ∀ p n, P p → P n → Merges p n → P (glue p n)) {done : List α}
    (hd : ∀ x ∈ done, P x) (hc : P c) : ∀ x ∈ push done c, P x := by
  rcases eq_nil_or_concat done with rfl | ⟨xs, p, rfl⟩
  · simpa using hc
  · rw [concat_eq_append] at hd ⊢
    rw [push_concat]
    obtain ⟨hxs, hp⟩ := forall_mem_append.mp hd
    have hp := hp p (by simp)
    split_ifs with hm
    · exact forall_mem_append.mpr ⟨hxs, by simpa using hg p c hp hc hm⟩
    · exact forall_mem_append.mpr ⟨hxs, by simpa using ⟨hp, hc⟩⟩

theorem forall_settle (hg : ∀ p n, P p → P n → Merges p n → P (glue p n)) {done rest : List α}
    (hd : ∀ x ∈ done, P x) (hc : P c) (hr : ∀ x ∈ rest, P x) : ∀ x ∈ settle done c rest, P x := by
  unfold settle
  cases rest with
  | nil => exact forall_mem_append.mpr ⟨forall_push hg hd hc, hr⟩
  | cons n rest =>
    obtain ⟨hn, hrest⟩ := forall_mem_cons.mp hr
    rw [absorb_cons]
    split_ifs with hm
    · exact forall_mem_append.mpr ⟨forall_push hg hd (hg c n hc hn hm), hrest⟩
    · exact forall_mem_append.mpr ⟨forall_push hg hd hc, hr⟩

theorem forall_sweep (hg : ∀ p n, P p → P n → Merges p n → P (glue p n))
    (hu : ∀ x, P x → P (upd x)) (done todo rest : List α) (hd : ∀ x ∈ done, P x)
    (ht : ∀ x ∈ todo, P x) (hr : ∀ x ∈ rest, P x) : ∀ x ∈ sweep upd done todo rest, P x := by
  induction done, todo, rest using sweep.induct upd with
  | case1 done rest => exact forall_mem_append.mpr ⟨hd, hr⟩
  | case2 done x => exact forall_push hg hd (hu x (ht x (by simp)))
  | case3 done x n rest hm =>
    obtain ⟨hn, hrest⟩ := forall_mem_cons.mp hr
    rw [sweep, if_pos hm]
    exact forall_mem_append.mpr
      ⟨forall_push hg hd (hg _ _ (hu x (ht x (by simp))) hn hm), hrest⟩
  | case4 done x n rest hm =>
    rw [sweep, if_neg hm]
    exact forall_mem_append.mpr ⟨forall_push hg hd (hu x (ht x (by simp))), hr⟩
  | case5 done x n todo rest hm ih =>
    obtain ⟨hx, hnt⟩ := forall_mem_cons.mp ht
    obtain ⟨hn, htodo⟩ := forall_mem_cons.mp hnt
    rw [sweep, if_pos hm]
    exact ih (forall_push hg hd (hg _ _ (hu x hx) hn hm)) htodo hr
  | case6 done x n todo rest hm ih =>
    obtain ⟨hx, hnt⟩ := forall_mem_cons.mp ht
    rw [sweep, if_neg hm]
    exact ih (forall_push hg hd (hu x hx)) hnt hr

/-- A segment that can be merged with no updated one is still there after a sweep next to it: `K`
tells such segments from the ones that are swept. -/
theorem mem_sweep {K : α → Prop} (hK : ∀ p n, Merges p n → (K p ↔ K n))
    (hglue : ∀ p n, Merges p n → (K (glue p n) ↔ K p)) (hu : ∀ x, K (upd x) → K x) {v : α}
    (hv : K v) (done todo rest : List α) (ht : ∀ x ∈ todo, ¬ K x) (hmem : v ∈ done ∨ v ∈ rest) :
    v ∈ sweep upd done todo rest := by
  have hpush : ∀ (done : List α) (c : α), ¬ K c → v ∈ done → v ∈ push done c := by
    intro done c hc hd
    rcases eq_nil_or_concat done with rfl | ⟨xs, p, rfl⟩
    · cases hd
    · rw [concat_eq_append] at hd ⊢
      rw [push_concat]
      split_ifs with hm
      · rcases mem_append.mp hd with hx | hp
        · exact List.mem_append_left _ hx
        · obtain rfl := List.mem_singleton.mp hp
          exact absurd ((hK v c hm).mp hv) hc
      · rcases mem_append.mp hd with hx | hp
        · exact List.mem_append_left _ hx
        · obtain rfl := List.mem_singleton.mp hp
          simp
  have hno : ∀ x n, ¬ K x → Merges (upd x) n → ¬ K (glue (upd x) n) ∧ ¬ K n := by
    intro x n hx hm
    have hux := mt (hu x) hx
    exact ⟨mt (hglue _ _ hm).mp hux, mt (hK _ _ hm).mpr hux⟩
  induction done, todo, rest using sweep.induct upd with
  | case1 done rest => exact mem_append.mpr hmem
  | case2 done x =>
    rcases hmem with hd | hr
    · exact hpush done _ (mt (hu x) (ht x (by simp))) hd
    · cases hr
  | case3 done x n rest hm =>
    obtain ⟨hg, hn⟩ := hno x n (ht x (by simp)) hm
    rw [sweep, if_pos hm]
    rcases hmem with hd | hr
    · exact List.mem_append_left _ (hpush done _ hg hd)
    · rcases List.mem_cons.mp hr with rfl | hr
      · exact absurd hv hn
      · exact List.mem_append_right _ hr
  | case4 done x n rest hm =>
    rw [sweep, if_neg hm]
    rcases hmem with hd | hr
    · exact List.mem_append_left _ (hpush done _ (mt (hu x) (ht x (by simp))) hd)
    · exact List.mem_append_right _ hr
  | case5 done x n todo rest hm ih =>
    obtain ⟨hx, hnt⟩ := forall_mem_cons.mp ht
    obtain ⟨-, htodo⟩ := forall_mem_cons.mp hnt
    rw [sweep, if_pos hm]
    exact ih htodo (hmem.imp_left (hpush done _ (hno x n hx hm).1))
  | case6 done x n todo rest hm ih =>
    obtain ⟨hx, hnt⟩ := forall_mem_cons.mp ht
    rw [sweep, if_neg hm]
    exact ih hnt (hmem.imp_left (hpush done _ (mt (hu x) hx)))

theorem mem_settle {K : α → Prop} (hK : ∀ p n, Merges p n → (K p ↔ K n))
    (hglue : ∀ p n, Merges p n → (K (glue p n) ↔ K p)) {v : α} (hv : K v) (hc : ¬ K c)
    {done rest : List α} (hmem : v ∈ done ∨ v ∈ rest) : v ∈ settle done c rest := by
  have hsweep := mem_sweep hK hglue (fun _ h => absurd h hc) hv done [c]
    rest (by simpa using hc) hmem
  unfold settle
  cases rest with
  | nil => simpa [sweep, absorb] using hsweep
  | cons n rest =>
    rw [sweep] at hsweep
    rw [absorb_cons]
    split_ifs at hsweep ⊢ with hm
    · exact hsweep
    · exact hsweep

end Forall

/-- The last segment after a push ends where the pushed one does, and starts where the last one
before did if the two were merged. -/
theorem push_last {done : List α} {lo mid hi : Nat} (hd : Tiles lo done mid) (hc : Tiles mid [c] hi)
    :
    ∃ xs l, push done c = xs ++ [l] ∧ base l ≤ mid ∧ base l + size l = hi ∧
      (∀ n, Merges l n ↔ Merges c n) ∧ ∀ p ∈ done.getLast?, Merges p c → base l = base p := by
  obtain ⟨hb, -, he⟩ := tiles_singleton.mp hc
  rcases eq_nil_or_concat done with rfl | ⟨xs, p, rfl⟩
  · exact ⟨[], c, rfl, Nat.le_of_eq hb, by omega, fun _ => Iff.rfl, by simp⟩
  · rw [concat_eq_append] at hd ⊢
    obtain ⟨m, -, hp⟩ := tiles_append.mp hd
    obtain ⟨hpb, -, hpe⟩ := tiles_singleton.mp hp
    rw [push_concat]
    split_ifs with hm
    · refine ⟨xs, glue p c, rfl, ?_, ?_, fun n => merges_glue_left p c n hm, fun q hq _ => ?_⟩
      · rw [base_glue]
        omega
      · rw [base_glue, size_glue]
        omega
      · obtain rfl : p = q := by simpa using hq
        rw [base_glue]
    · refine ⟨xs ++ [p], c, by simp, Nat.le_of_eq hb, by omega, fun _ => Iff.rfl,
        fun q hq hq' => ?_⟩
      obtain rfl : p = q := by simpa using hq
      exact absurd hq' hm

/-- The last segment after a push starts before the pushed one exactly if the two were merged. -/
theorem push_start {done : List α} {lo mid hi : Nat} (hd : Tiles lo done mid)
    (hc : Tiles mid [c] hi) {l : α} (hpush : push done c = xs ++ [l]) :
    base l < mid ↔ ∃ p ∈ done.getLast?, Merges p c := by
  obtain ⟨hb, -, -⟩ := tiles_singleton.mp hc
  rcases eq_nil_or_concat done with rfl | ⟨zs, p, rfl⟩
  · obtain ⟨-, hl⟩ := List.append_inj' (show [] ++ [c] = xs ++ [l] from hpush) rfl
    obtain rfl := List.singleton_inj.mp hl
    simp [hb]
  · rw [concat_eq_append] at hd hpush ⊢
    obtain ⟨m, -, hp⟩ := tiles_append.mp hd
    obtain ⟨hpb, hpos, hpe⟩ := tiles_singleton.mp hp
    rw [push_concat] at hpush
    simp only [List.getLast?_concat, Option.mem_some_iff, exists_eq_left']
    split_ifs at hpush with hm
    · obtain ⟨-, hl⟩ := List.append_inj' hpush rfl
      obtain rfl := List.singleton_inj.mp hl
      rw [base_glue]
      exact iff_of_true (by omega) hm
    · obtain ⟨-, hl⟩ :=
        List.append_inj' (show zs ++ [p] ++ [c] = xs ++ [l] by simpa using hpush) rfl
      obtain rfl := List.singleton_inj.mp hl
      exact iff_of_false (by omega) hm

/-- Where updated segments merge with one another and with no other ones of the range, a sweep
leaves one segment over the range. -/
theorem sweep_covers (hu : Update upd f) {lo start mid e hi : Nat} (done todo rest : List α)
    (hd : Tiles lo done mid) (ht : Tiles mid todo e) (hr : Tiles e rest hi) (hne : todo ≠ [])
    (hmerge : ∀ x ∈ todo, ∀ y ∈ todo, Merges (upd x) (upd y))
    (hno : ∀ x ∈ todo, ∀ y ∈ todo, ¬ Merges (upd x) y)
    (hlast : mid = start ∨ ∃ p ∈ done.getLast?, base p ≤ start ∧ ∀ x ∈ todo, Merges p (upd x)) :
    ∃ w ∈ sweep upd done todo rest, base w ≤ start ∧ e ≤ base w + size w := by
  induction done, todo, rest using sweep.induct upd generalizing mid with
  | case1 => exact absurd rfl hne
  | case2 done x =>
    obtain ⟨xs, l, hpush, hle, hend, -, hb⟩ := push_last hd (hu.tiles_upd ht)
    rw [sweep, hpush]
    refine ⟨l, by simp, ?_, by omega⟩
    rcases hlast with rfl | ⟨p, hp, hps, hpm⟩
    · exact hle
    · rw [hb p hp (hpm x (by simp))]
      exact hps
  | case3 done x n rest hm =>
    obtain ⟨m, hn, -⟩ := tiles_cons.mp hr
    obtain ⟨xs, l, hpush, hle, hend, -, hb⟩ := push_last hd (tiles_glue (hu.tiles_upd ht) hn)
    rw [sweep, if_pos hm, hpush]
    refine ⟨l, by simp, ?_, ?_⟩
    · rcases hlast with rfl | ⟨p, hp, hps, hpm⟩
      · exact hle
      · rw [hb p hp ((merges_glue_right p (upd x) n).mpr (hpm x (by simp)))]
        exact hps
    · have := hn.le
      omega
  | case4 done x n rest hm =>
    obtain ⟨xs, l, hpush, hle, hend, -, hb⟩ := push_last hd (hu.tiles_upd ht)
    rw [sweep, if_neg hm, hpush]
    refine ⟨l, by simp, ?_, by omega⟩
    rcases hlast with rfl | ⟨p, hp, hps, hpm⟩
    · exact hle
    · rw [hb p hp (hpm x (by simp))]
      exact hps
  | case5 done x n todo rest hm ih => exact absurd hm (hno x (by simp) n (by simp))
  | case6 done x n todo rest hm ih =>
    obtain ⟨m, hx, hnt⟩ := tiles_cons.mp ht
    have hux := hu.tiles_upd hx
    obtain ⟨xs, l, hpush, hle, -, hl, hb⟩ := push_last hd hux
    rw [sweep, if_neg hm]
    refine ih (tiles_push hd hux) hnt hr (by simp)
      (fun y hy z hz => hmerge y (mem_cons_of_mem _ hy) z (mem_cons_of_mem _ hz))
      (fun y hy z hz => hno y (mem_cons_of_mem _ hy) z (mem_cons_of_mem _ hz))
      (Or.inr ⟨l, by rw [hpush]; simp, ?_, fun y hy => ?_⟩)
    · rcases hlast with rfl | ⟨p, hp, hps, hpm⟩
      · exact hle
      · rw [hb p hp (hpm x (by simp))]
        exact hps
    · exact (hl _).mpr (hmerge x (by simp) y (mem_cons_of_mem _ hy))

end Segment

end GbaStation
