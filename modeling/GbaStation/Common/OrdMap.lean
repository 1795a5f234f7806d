import Mathlib.Data.List.Basic

/-!
# Ordered maps with iterators

`std::map` with natural-number keys, kept as the list of its entries in key order. An
iterator is the key of the entry it points to (`none` is `end()`): inserting and erasing
other entries leaves it valid, as it does in the source.

Every operation has one lemma that says what it does at a *focus*, the entry `(k, v)` of
`pre ++ (k, v) :: post` with smaller keys before and larger keys behind it.
-/

namespace GbaStation

universe u

/-- The entries of a `std::map` in key order. -/
abbrev OrdMap (V : Type u) := List (Nat × V)

namespace OrdMap

variable {V : Type u}

/-- An iterator: the key it points to, or `none` for `end()`. -/
abbrev Iter := Option Nat

/-- Dereference the iterator at key `k`. -/
def get? (m : OrdMap V) (k : Nat) : Option V :=
  (m.find? fun e => decide (e.1 = k)).map Prod.snd

/-- The first entry whose key is not less than `t`. -/
def lowerBound (m : OrdMap V) (t : Nat) : Iter :=
  (m.find? fun e => decide (t ≤ e.1)).map Prod.fst

/-- The first entry whose key is greater than `t`. -/
def upperBound (m : OrdMap V) (t : Nat) : Iter :=
  (m.find? fun e => decide (t < e.1)).map Prod.fst

/-- `std::next` of the iterator at key `k`. -/
def next (m : OrdMap V) (k : Nat) : Iter := m.upperBound k

/-- `std::prev` of an iterator. -/
def prev (m : OrdMap V) : Iter → Iter
  | none => m.getLast?.map Prod.fst
  | some k => (m.takeWhile fun e => decide (e.1 < k)).getLast?.map Prod.fst

/-- Write through the iterator at key `k`. -/
def set (m : OrdMap V) (k : Nat) (v : V) : OrdMap V :=
  m.map fun e => if e.1 = k then (k, v) else e

/-- Erase the entry at key `k`. -/
def erase (m : OrdMap V) (k : Nat) : OrdMap V :=
  m.filter fun e => decide (e.1 ≠ k)

/-- Insert `(k, v)` unless the key is taken. -/
def emplace (m : OrdMap V) (k : Nat) (v : V) : OrdMap V :=
  match m.get? k with
  | some _ => m
  | none =>
    (m.takeWhile fun e => decide (e.1 < k)) ++ (k, v) :: m.dropWhile fun e => decide (e.1 < k)

/-- The entries from the iterator at key `k` up to the iterator `last`, or `none` when
`last` does not come after it. -/
def range (m : OrdMap V) (k : Nat) (last : Iter) : Option (List (Nat × V)) :=
  let rest := m.dropWhile fun e => decide (e.1 < k)
  match last with
  | none => some rest
  | some l => if k ≤ l then some (rest.takeWhile fun e => decide (e.1 < l)) else none

/-- All keys of `m` are below `k`. -/
def Below (m : OrdMap V) (k : Nat) : Prop := ∀ e ∈ m, e.1 < k

/-- All keys of `m` are above `k`. -/
def Above (m : OrdMap V) (k : Nat) : Prop := ∀ e ∈ m, k < e.1

variable {pre post : OrdMap V} {k : Nat} {v : V}

theorem takeWhile_below (hpre : Below pre k) {rest : OrdMap V} (hrest : ∀ e ∈ rest.head?, k ≤ e.1) :
    (pre ++ rest).takeWhile (fun e => decide (e.1 < k)) = pre := by
  rw [List.takeWhile_append_of_pos fun e he => decide_eq_true (hpre e he)]
  cases rest with
  | nil => simp
  | cons e rest =>
    have : ¬ e.1 < k := Nat.not_lt.mpr (hrest e rfl)
    simp [this]

theorem dropWhile_below (hpre : Below pre k) {rest : OrdMap V} (hrest : ∀ e ∈ rest.head?, k ≤ e.1) :
    (pre ++ rest).dropWhile (fun e => decide (e.1 < k)) = rest := by
  rw [List.dropWhile_append_of_pos fun e he => decide_eq_true (hpre e he)]
  cases rest with
  | nil => simp
  | cons e rest =>
    have : ¬ e.1 < k := Nat.not_lt.mpr (hrest e rfl)
    simp [this]

theorem get?_below (hpre : Below pre k) {rest : OrdMap V} :
    get? (pre ++ rest) k = get? rest k := by
  unfold get?
  rw [List.find?_append, List.find?_eq_none.mpr]
  · rfl
  · intro e he
    have := hpre e he
    simp only [decide_eq_true_eq]
    omega

theorem get?_above (hpost : Above post k) : get? post k = none := by
  unfold get?
  rw [List.find?_eq_none.mpr, Option.map_none]
  intro e he
  have := hpost e he
  simp only [decide_eq_true_eq]
  omega

theorem get?_focus (hpre : Below pre k) : get? (pre ++ (k, v) :: post) k = some v := by
  rw [get?_below hpre]
  simp [get?]

theorem upperBound_focus {t : Nat} (hpre : ∀ e ∈ pre, e.1 ≤ t) (hpost : Above post t) :
    upperBound (pre ++ post) t = post.head?.map Prod.fst := by
  unfold upperBound
  rw [List.find?_append, List.find?_eq_none.mpr]
  · cases post with
    | nil => rfl
    | cons e post => simp [hpost e (List.mem_cons_self ..)]
  · intro e he
    have := hpre e he
    simp only [decide_eq_true_eq]
    omega

theorem lowerBound_focus {t : Nat} (hpre : Below pre t) (hpost : ∀ e ∈ post.head?, t ≤ e.1) :
    lowerBound (pre ++ post) t = post.head?.map Prod.fst := by
  unfold lowerBound
  rw [List.find?_append, List.find?_eq_none.mpr]
  · cases post with
    | nil => rfl
    | cons e post => simp [hpost e rfl]
  · intro e he
    have := hpre e he
    simp only [decide_eq_true_eq]
    omega

theorem next_focus (hpre : Below pre k) (hpost : Above post k) :
    next (pre ++ (k, v) :: post) k = post.head?.map Prod.fst := by
  have hle : ∀ e ∈ pre ++ [(k, v)], e.1 ≤ k := by
    intro e he
    rcases List.mem_append.mp he with he | he
    · exact Nat.le_of_lt (hpre e he)
    · obtain rfl : e = (k, v) := by simpa using he
      exact Nat.le_refl k
  have := upperBound_focus hle hpost
  rwa [List.append_assoc] at this

theorem prev_focus (hpre : Below pre k) :
    prev (pre ++ (k, v) :: post) (some k) = pre.getLast?.map Prod.fst := by
  unfold prev
  simp only
  rw [takeWhile_below hpre]
  simp

theorem set_focus (hpre : Below pre k) (hpost : Above post k) (w : V) :
    set (pre ++ (k, v) :: post) k w = pre ++ (k, w) :: post := by
  unfold set
  rw [List.map_append, List.map_cons, if_pos rfl]
  have hid : ∀ xs : OrdMap V, (∀ e ∈ xs, e.1 ≠ k) →
      (xs.map fun e => if e.1 = k then (k, w) else e) = xs := by
    intro xs hxs
    rw [List.map_congr_left (g := id)]
    · simp
    · intro e he
      simp [hxs e he]
  rw [hid pre fun e he => Nat.ne_of_lt (hpre e he), hid post fun e he => Nat.ne_of_gt (hpost e he)]

theorem erase_focus (hpre : Below pre k) (hpost : Above post k) :
    erase (pre ++ (k, v) :: post) k = pre ++ post := by
  unfold erase
  rw [List.filter_append, List.filter_cons]
  have hid : ∀ xs : OrdMap V, (∀ e ∈ xs, e.1 ≠ k) →
      (xs.filter fun e => decide (e.1 ≠ k)) = xs := by
    intro xs hxs
    exact List.filter_eq_self.mpr (by simpa using hxs)
  rw [hid pre fun e he => Nat.ne_of_lt (hpre e he), hid post fun e he => Nat.ne_of_gt (hpost e he)]
  simp

theorem emplace_focus (hpre : Below pre k) (hpost : Above post k) :
    emplace (pre ++ post) k v = pre ++ (k, v) :: post := by
  have hhead : ∀ e ∈ post.head?, k ≤ e.1 := by
    intro e he
    exact Nat.le_of_lt (hpost e (List.mem_of_mem_head? he))
  unfold emplace
  rw [get?_below hpre, get?_above hpost]
  rw [takeWhile_below hpre hhead, dropWhile_below hpre hhead]

/-- The entries between two iterators. -/
theorem range_focus {mid : OrdMap V} (hpre : Below pre k) (hmid : ∀ e ∈ mid.head?, e.1 = k)
    (hne : mid ≠ []) (hlast : ∀ e ∈ post.head?, Below mid e.1) :
    range (pre ++ (mid ++ post)) k (post.head?.map Prod.fst) = some mid := by
  obtain ⟨e, mid', rfl⟩ := List.exists_cons_of_ne_nil hne
  have hk : e.1 = k := hmid e rfl
  unfold range
  rw [dropWhile_below hpre (by simpa using Nat.le_of_eq hk.symm)]
  cases post with
  | nil => simp
  | cons p post =>
    have hbelow := hlast p rfl
    have hkp : k ≤ p.1 := by
      rw [← hk]
      exact Nat.le_of_lt (hbelow e (List.mem_cons_self ..))
    simp only [List.head?_cons, Option.map_some]
    rw [if_pos hkp, takeWhile_below hbelow (by simp)]

/-! ## Lookups

What a map holds at one key after an update of another one, wherever the two keys are.
-/

theorem get?_nil (j : Nat) : get? ([] : OrdMap V) j = none := rfl

theorem get?_append (xs ys : OrdMap V) (j : Nat) :
    get? (xs ++ ys) j = (get? xs j).or (get? ys j) := by
  unfold get?
  rw [List.find?_append]
  cases xs.find? fun e => decide (e.1 = j) <;> rfl

theorem get?_cons (e : Nat × V) (m : OrdMap V) (j : Nat) :
    get? (e :: m) j = if e.1 = j then some e.2 else get? m j := by
  unfold get?
  by_cases h : e.1 = j
  · rw [List.find?_cons_of_pos (by simpa using h), if_pos h]
    rfl
  · rw [List.find?_cons_of_neg (by simpa using h), if_neg h]

theorem get?_erase (m : OrdMap V) (k j : Nat) :
    get? (erase m k) j = if j = k then none else get? m j := by
  induction m with
  | nil => simp [erase, get?_nil]
  | cons e m ih =>
    have herase : erase (e :: m) k = if e.1 = k then erase m k else e :: erase m k := by
      unfold erase
      by_cases h : e.1 = k <;> simp [h]
    rw [herase]
    by_cases h : e.1 = k
    · rw [if_pos h, ih, get?_cons, h]
      by_cases hj : j = k
      · rw [if_pos hj, if_pos hj]
      · rw [if_neg hj, if_neg hj, if_neg fun hk => hj hk.symm]
    · rw [if_neg h, get?_cons, get?_cons, ih]
      by_cases hj : j = k
      · rw [if_pos hj, if_pos hj, if_neg fun he => h (he.trans hj)]
      · rw [if_neg hj, if_neg hj]

theorem get?_set (m : OrdMap V) (k j : Nat) (v : V) :
    get? (set m k v) j = if j = k then (get? m k).map fun _ => v else get? m j := by
  induction m with
  | nil => simp [set, get?_nil]
  | cons e m ih =>
    have hset : set (e :: m) k v = (if e.1 = k then (k, v) else e) :: set m k v := rfl
    rw [hset, get?_cons, get?_cons, get?_cons, ih]
    by_cases h : e.1 = k <;> by_cases hj : j = k
    · simp [h, hj]
    · have : ¬ k = j := fun hk => hj hk.symm
      simp [h, hj, this]
    · simp [h, hj]
    · simp [h, hj]

theorem get?_emplace {m : OrdMap V} (k j : Nat) (v : V) (hfree : get? m k = none) :
    get? (emplace m k v) j = if j = k then some v else get? m j := by
  have hsplit := List.takeWhile_append_dropWhile (p := fun e : Nat × V => decide (e.1 < k)) (l := m)
  have hget := fun t => congrArg (fun l => get? l t) hsplit
  simp only [get?_append] at hget
  unfold emplace
  rw [hfree]
  rw [get?_append, get?_cons, ← hget j]
  by_cases hj : j = k
  · -- the key is free, so nothing before the new entry has it
    have hnone := hget k
    rw [hfree, Option.or_eq_none_iff] at hnone
    rw [hj, hnone.1, if_pos rfl, if_pos rfl]
    rfl
  · rw [if_neg hj, if_neg fun hk => hj hk.symm]

end OrdMap

end GbaStation
