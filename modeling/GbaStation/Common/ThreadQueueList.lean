import Mathlib.Data.List.Flatten
import Mathlib.Data.List.Nodup
import Mathlib.Data.List.Range
import Mathlib.Logic.Function.Basic
import Mathlib.Order.Nat
import Mathlib.Tactic.ByContra

/-!
# Thread queue list

`Common::ThreadQueueList<T, N>` keeps one double-ended queue for each of `N` priority levels and a
singly linked list through the levels that were used at least once. A level that was never used
holds a tag in its `next_nonempty` pointer, so the pointers are the only record of which levels
are linked.

- The operations follow the source. A loop over the list gets a turn for every level and one for
  its end; `none` stands for a pointer that must not be followed (the tag, or a null pointer in
  `pop_first_better`), and for a list with more turns than levels.
- `order` lists the queued threads in the order in which `pop_first` hands them out; the popping
  loops are specified by its head.
-/

namespace GbaStation.Common

open Function (update update_apply update_self update_of_ne update_idem)

/-- The values of a `Queue*`: the tag of a level that was never used, null, or a level. -/
inductive Link
  | unlinked
  | null
  | level (p : Nat)
deriving DecidableEq, Repr

/-- The queues of all levels, their `next_nonempty` pointers and the pointer to the first level
that was ever used. -/
structure ThreadQueueList (T : Type) (N : Nat) where
  first : Link
  nextNonempty : Nat → Link
  data : Nat → List T

namespace ThreadQueueList

variable {T : Type} {N : Nat}

/-! ## The operations -/

/-- A list without threads and without linked levels. -/
def empty : ThreadQueueList T N where
  first := .null
  nextNonempty _ := .unlinked
  data _ := []

/-- The loop of `get_first` and `pop_first`: the first level with a thread from `cur` on. -/
def seek (q : ThreadQueueList T N) : Nat → Link → Option (Option (Nat × T))
  | 0, _ => none
  | _ + 1, .unlinked => none
  | _ + 1, .null => some none
  | turns + 1, .level p =>
    match q.data p with
    | x :: _ => some (some (p, x))
    | [] => q.seek turns (q.nextNonempty p)

/-- The loop of `pop_first_better`, which runs while `cur` is below the address of the level
`priority`; null is below every address and would be followed. -/
def seekBetter (q : ThreadQueueList T N) (priority : Nat) :
    Nat → Link → Option (Option (Nat × T))
  | 0, _ => none
  | _ + 1, .unlinked => none
  | _ + 1, .null => none
  | turns + 1, .level p =>
    if p < priority then
      match q.data p with
      | x :: _ => some (some (p, x))
      | [] => q.seekBetter priority turns (q.nextNonempty p)
    else some none

/-- `pop_front` on one level. -/
def dropFront (q : ThreadQueueList T N) (p : Nat) : ThreadQueueList T N :=
  { q with data := update q.data p (q.data p).tail }

/-- Takes what a search found out of its level. -/
def takeFound (q : ThreadQueueList T N) :
    Option (Nat × T) → Option (Nat × T) × ThreadQueueList T N
  | none => (none, q)
  | some found => (some found, q.dropFront found.1)

def getFirst (q : ThreadQueueList T N) : Option (Option T) :=
  (q.seek (N + 1) q.first).map (Option.map Prod.snd)

def popFirst (q : ThreadQueueList T N) :
    Option (Option (Nat × T) × ThreadQueueList T N) :=
  (q.seek (N + 1) q.first).map q.takeFound

def popFirstBetter (q : ThreadQueueList T N) (priority : Nat) :
    Option (Option (Nat × T) × ThreadQueueList T N) :=
  (q.seekBetter priority (N + 1) q.first).map q.takeFound

def pushFront (q : ThreadQueueList T N) (priority : Nat) (x : T) : ThreadQueueList T N :=
  { q with data := update q.data priority (x :: q.data priority) }

def pushBack (q : ThreadQueueList T N) (priority : Nat) (x : T) : ThreadQueueList T N :=
  { q with data := update q.data priority (q.data priority ++ [x]) }

/-- `std::remove` and `erase`: every copy of `x` leaves the level. -/
def remove [DecidableEq T] (q : ThreadQueueList T N) (priority : Nat) (x : T) :
    ThreadQueueList T N :=
  { q with data := update q.data priority ((q.data priority).filter (· ≠ x)) }

/-- The loop of `link`: the highest linked level below a level. -/
def lowerLinked (q : ThreadQueueList T N) : Nat → Option Nat
  | 0 => none
  | i + 1 => if q.nextNonempty i ≠ .unlinked then some i else q.lowerLinked i

def link (q : ThreadQueueList T N) (priority : Nat) : ThreadQueueList T N :=
  match q.lowerLinked priority with
  | some i =>
    { q with
      nextNonempty :=
        update (update q.nextNonempty priority (q.nextNonempty i)) i
          (.level priority) }
  | none =>
    { q with
      nextNonempty := update q.nextNonempty priority q.first
      first := .level priority }

def prepare (q : ThreadQueueList T N) (priority : Nat) : ThreadQueueList T N :=
  if q.nextNonempty priority = .unlinked then q.link priority else q

def move [DecidableEq T] (q : ThreadQueueList T N) (x : T) (oldPriority newPriority : Nat) :
    ThreadQueueList T N :=
  ((q.remove oldPriority x).prepare newPriority).pushBack newPriority x

/-! ## The linked levels -/

/-- The level was used before. -/
def Linked (q : ThreadQueueList T N) (p : Nat) : Prop := q.nextNonempty p ≠ .unlinked

/-- The pointer holds the lowest linked level from `lo` on, null when there is none. -/
def LowestFrom (q : ThreadQueueList T N) (lo : Nat) : Link → Prop
  | .unlinked => False
  | .null => ∀ j, lo ≤ j → ¬ q.Linked j
  | .level p => lo ≤ p ∧ q.Linked p ∧ ∀ j, lo ≤ j → j < p → ¬ q.Linked j

/-- The pointers lead through the linked levels in increasing order, and threads are on linked
levels only. -/
structure WellLinked (q : ThreadQueueList T N) : Prop where
  lowest_first : q.LowestFrom 0 q.first
  lowest_next : ∀ p, q.Linked p → q.LowestFrom (p + 1) (q.nextNonempty p)
  lt_of_linked : ∀ p, q.Linked p → p < N
  linked_of_data : ∀ p, q.data p ≠ [] → q.Linked p

theorem wellLinked_empty : (empty : ThreadQueueList T N).WellLinked where
  lowest_first := fun _ _ h => h rfl
  lowest_next := fun _ h => absurd rfl h
  lt_of_linked := fun _ h => absurd rfl h
  linked_of_data := fun _ h => absurd rfl h

variable {q : ThreadQueueList T N} {lo p priority : Nat} {t x : T} {levels : T → Option Nat}

/-- Changing the queues of linked levels keeps the list linked. -/
theorem WellLinked.with_data (h : q.WellLinked) {d : Nat → List T} (hd : ∀ p, d p ≠ [] → q.Linked p)
    :
      ({ q with data := d } : ThreadQueueList T N).WellLinked where
  lowest_first := by
    have := h.lowest_first
    revert this
    cases q.first <;> exact id
  lowest_next := fun p hp => by
    have := h.lowest_next p hp
    revert this
    show q.LowestFrom (p + 1) (q.nextNonempty p) → _
    cases q.nextNonempty p <;> exact id
  lt_of_linked := h.lt_of_linked
  linked_of_data := hd

theorem WellLinked.pushFront (h : q.WellLinked) (hp : q.Linked p) (x : T) :
    (q.pushFront p x).WellLinked := by
  refine h.with_data fun i hi => ?_
  by_cases hip : i = p
  · exact hip ▸ hp
  · exact h.linked_of_data i (by simpa [hip] using hi)

theorem WellLinked.pushBack (h : q.WellLinked) (hp : q.Linked p) (x : T) :
    (q.pushBack p x).WellLinked := by
  refine h.with_data fun i hi => ?_
  by_cases hip : i = p
  · exact hip ▸ hp
  · exact h.linked_of_data i (by simpa [hip] using hi)

theorem WellLinked.remove [DecidableEq T] (h : q.WellLinked) (p : Nat) (x : T) :
    (q.remove p x).WellLinked := by
  refine h.with_data fun i hi => h.linked_of_data i fun he => hi ?_
  by_cases hip : i = p
  · subst hip
    simp [he]
  · simp [hip, he]

theorem lowerLinked_eq_some {n i : Nat} (h : q.lowerLinked n = some i) :
    i < n ∧ q.Linked i ∧ ∀ j, i < j → j < n → ¬ q.Linked j := by
  induction n with
  | zero => simp [lowerLinked] at h
  | succ n ih =>
    rw [lowerLinked] at h
    split at h
    · next hn =>
      obtain rfl : n = i := by simpa using h
      exact ⟨by omega, hn, by omega⟩
    · next hn =>
      obtain ⟨hlt, hl, hgap⟩ := ih h
      refine ⟨by omega, hl, fun j hj hjn => ?_⟩
      by_cases hjn' : j = n
      · subst hjn'
        simpa [Linked] using hn
      · exact hgap j hj (by omega)

theorem lowerLinked_eq_none {n : Nat} (h : q.lowerLinked n = none) : ∀ j, j < n → ¬ q.Linked j := by
  induction n with
  | zero => omega
  | succ n ih =>
    rw [lowerLinked] at h
    split at h
    · simp at h
    · next hn =>
      intro j hj
      by_cases hjn : j = n
      · subst hjn
        simpa [Linked] using hn
      · exact ih h j (by omega)

/-- Linking a level leaves the other levels as they were. -/
theorem linked_link (h : q.WellLinked) (i : Nat) : (q.link p).Linked i ↔ q.Linked i ∨ i = p := by
  unfold link
  split
  · next j hj =>
    obtain ⟨hlt, hl, -⟩ := lowerLinked_eq_some hj
    have hnext : q.nextNonempty j ≠ .unlinked := hl
    simp only [Linked, update_apply]
    split_ifs with hij hip
    · simp [hij, hnext]
    · simp [hip, hnext]
    · simp [hip]
  · simp only [Linked, update_apply]
    have hfirst : q.first ≠ .unlinked := by
      have := h.lowest_first
      rintro he
      rw [he] at this
      exact this
    split_ifs with hip
    · simp [hip, hfirst]
    · simp [hip]

@[simp] theorem data_link (q : ThreadQueueList T N) (p : Nat) : (q.link p).data = q.data := by
  unfold link
  split <;> rfl

@[simp] theorem data_prepare (q : ThreadQueueList T N) (p : Nat) :
    (q.prepare p).data = q.data := by
  unfold prepare
  split
  · exact data_link q p
  · rfl

theorem linked_prepare (h : q.WellLinked) (i : Nat) :
    (q.prepare p).Linked i ↔ q.Linked i ∨ i = p := by
  unfold prepare
  split
  · exact linked_link h i
  · next hp =>
    constructor
    · exact Or.inl
    · rintro (hi | rfl)
      · exact hi
      · exact hp

/-- A pointer past the level that is being linked sees no change. -/
theorem LowestFrom.mono {r : ThreadQueueList T N} {l : Link} (h : q.LowestFrom lo l)
    (hqr : ∀ i, lo ≤ i → (r.Linked i ↔ q.Linked i)) : r.LowestFrom lo l := by
  cases l with
  | unlinked => exact h
  | null => exact fun j hj => by rw [hqr j hj]; exact h j hj
  | level p =>
    obtain ⟨hlo, hl, hgap⟩ := h
    exact ⟨hlo, (hqr p hlo).mpr hl, fun j hj hjp => by rw [hqr j hj]; exact hgap j hj hjp⟩

/-- A gap may be skipped. -/
theorem LowestFrom.advance {hi : Nat} {l : Link} (h : q.LowestFrom lo l) (hle : lo ≤ hi)
    (hgap : ∀ j, lo ≤ j → j < hi → ¬ q.Linked j) : q.LowestFrom hi l := by
  cases l with
  | unlinked => exact h
  | null => exact fun j hj => h j (by omega)
  | level p =>
    obtain ⟨hlo, hl, hg⟩ := h
    refine ⟨?_, hl, fun j hj hjp => hg j (by omega) hjp⟩
    by_contra hlt
    exact hgap p hlo (by omega) hl

theorem WellLinked.link (h : q.WellLinked) (hp : ¬ q.Linked p) (hN : p < N) :
    (q.link p).WellLinked := by
  have hlinked := fun i => linked_link h (p := p) i
  refine ⟨?_, ?_, ?_, ?_⟩
  · show (q.link p).LowestFrom 0 (q.link p).first
    cases hlow : q.lowerLinked p with
    | none =>
      have hfirst : (q.link p).first = .level p := by simp [ThreadQueueList.link, hlow]
      rw [hfirst]
      refine ⟨by omega, (hlinked p).mpr (Or.inr rfl), fun j _ hj => ?_⟩
      rw [hlinked]
      have := lowerLinked_eq_none hlow j hj
      rintro (hl | rfl)
      · exact this hl
      · omega
    | some i =>
      obtain ⟨hlt, hl, hgap⟩ := lowerLinked_eq_some hlow
      have hfirst : (q.link p).first = q.first := by simp [ThreadQueueList.link, hlow]
      rw [hfirst]
      -- the first level stays in front: the new level has a linked level below it
      have hlf := h.lowest_first
      cases hf : q.first with
      | unlinked => rw [hf] at hlf; exact hlf
      | null => rw [hf] at hlf; exact absurd hl (hlf i (by omega))
      | level a =>
        rw [hf] at hlf
        obtain ⟨-, ha, hg⟩ := hlf
        have hai : a ≤ i := by
          by_contra hlt'
          exact hg i (by omega) (by omega) hl
        refine ⟨by omega, (hlinked a).mpr (Or.inl ha), fun j hj hja => ?_⟩
        rw [hlinked]
        rintro (hl' | rfl)
        · exact hg j hj hja hl'
        · omega
  · intro i hi
    -- the links of the new level and of the level below it change, the others stay
    have hbeyond : ∀ lo l, q.LowestFrom lo l → p < lo → (q.link p).LowestFrom lo l :=
      fun lo l hl hlo => hl.mono fun j hj => by rw [hlinked]; constructor
                                                · rintro (h' | rfl)
                                                  · exact h'
                                                  · omega
                                                · exact Or.inl
    cases hlow : q.lowerLinked p with
    | none =>
      have hnext : (q.link p).nextNonempty = update q.nextNonempty p q.first := by
        simp [ThreadQueueList.link, hlow]
      have hbelow := lowerLinked_eq_none hlow
      rw [hnext]
      by_cases hip : i = p
      · subst hip
        rw [update_self]
        refine hbeyond _ _ (h.lowest_first.advance (by omega) fun j _ hj => ?_) (by omega)
        by_cases hji : j = i
        · exact hji ▸ hp
        · exact hbelow j (by omega)
      · rw [update_of_ne hip]
        have hqi : q.Linked i := ((hlinked i).mp hi).resolve_right hip
        have hpi : p < i := by
          by_contra hlt
          exact hbelow i (by omega) hqi
        exact hbeyond _ _ (h.lowest_next i hqi) (by omega)
    | some a =>
      obtain ⟨hlt, hla, hgap⟩ := lowerLinked_eq_some hlow
      have hnext : (q.link p).nextNonempty =
          update (update q.nextNonempty p (q.nextNonempty a)) a (.level p) := by
        simp [ThreadQueueList.link, hlow]
      rw [hnext]
      by_cases hia : i = a
      · subst hia
        rw [update_self]
        refine ⟨by omega, (hlinked p).mpr (Or.inr rfl), fun j hj hjp => ?_⟩
        rw [hlinked]
        rintro (h' | rfl)
        · exact hgap j (by omega) hjp h'
        · omega
      · rw [update_of_ne hia]
        by_cases hip : i = p
        · subst hip
          rw [update_self]
          refine hbeyond _ _ ((h.lowest_next a hla).advance (by omega) fun j hj hji => ?_)
            (by omega)
          by_cases hj' : j = i
          · exact hj' ▸ hp
          · exact hgap j (by omega) (by omega)
        · rw [update_of_ne hip]
          have hqi : q.Linked i := ((hlinked i).mp hi).resolve_right hip
          by_cases hpi : p < i
          · exact hbeyond _ _ (h.lowest_next i hqi) (by omega)
          · -- below `a`: the next linked level is at most `a`, so the new level is behind it
            have hlt' : i < a := by
              by_contra hge
              exact hgap i (by omega) (by omega) hqi
            have hn := h.lowest_next i hqi
            cases hl : q.nextNonempty i with
            | unlinked => exact absurd hl hqi
            | null => rw [hl] at hn; exact absurd hla (hn a (by omega))
            | level b =>
              rw [hl] at hn
              obtain ⟨hb, hlb, hg⟩ := hn
              have hba : b ≤ a := by
                by_contra hgt
                exact hg a (by omega) (by omega) hla
              refine ⟨hb, (hlinked b).mpr (Or.inl hlb), fun j hj hjb => ?_⟩
              rw [hlinked]
              rintro (h' | rfl)
              · exact hg j hj hjb h'
              · omega
  · intro i hi
    rcases (hlinked i).mp hi with hi | rfl
    · exact h.lt_of_linked i hi
    · exact hN
  · intro i hi
    rw [data_link] at hi
    exact (hlinked i).mpr (Or.inl (h.linked_of_data i hi))

theorem WellLinked.prepare (h : q.WellLinked) (hN : p < N) : (q.prepare p).WellLinked := by
  unfold ThreadQueueList.prepare
  split
  · next hp => exact h.link (by simpa [Linked] using hp) hN
  · exact h

/-! ## The order of service -/

/-- The queued threads with their levels, in the order in which `pop_first` hands them out. -/
def order (q : ThreadQueueList T N) : List (Nat × T) :=
  (List.range N).flatMap fun p => (q.data p).map (Prod.mk p)

theorem mem_order {e : Nat × T} : e ∈ q.order ↔ e.1 < N ∧ e.2 ∈ q.data e.1 := by
  obtain ⟨p, x⟩ := e
  simp only [order, List.mem_flatMap, List.mem_range, List.mem_map, Prod.mk.injEq]
  constructor
  · rintro ⟨i, hi, y, hy, rfl, rfl⟩
    exact ⟨hi, hy⟩
  · rintro ⟨hp, hx⟩
    exact ⟨p, hp, x, hx, rfl, rfl⟩

/-- The levels below and above a level, as lists. -/
theorem range_split (hp : p < N) :
    List.range N = List.range p ++ p :: List.range' (p + 1) (N - p - 1) := by
  rw [List.range_eq_range', List.range_eq_range', ← List.range'_succ]
  have h := @List.range'_append 0 p (N - p) 1
  rw [show 0 + 1 * p = p by omega, show p + (N - p) = N by omega] at h
  rw [← h, show N - p - 1 + 1 = N - p by omega]

/-- When the levels below `p` are empty the threads of level `p` come first. -/
theorem order_eq_append (hp : p < N) (hlow : ∀ j, j < p → q.data j = []) :
    q.order = (q.data p).map (Prod.mk p) ++
      (List.range' (p + 1) (N - p - 1)).flatMap fun i => (q.data i).map (Prod.mk i) := by
  have hnil : (List.range p).flatMap (fun i => (q.data i).map (Prod.mk i)) = [] := by
    rw [List.flatMap_eq_nil_iff]
    intro i hi
    rw [hlow i (List.mem_range.mp hi), List.map_nil]
  rw [order, range_split hp, List.flatMap_append, hnil, List.nil_append, List.flatMap_cons]

/-- Putting a thread in front of a level below which nothing is queued puts it in front of all. -/
theorem order_pushFront (hp : p < N) (hlow : ∀ j, j < p → q.data j = []) (x : T) :
    (q.pushFront p x).order = (p, x) :: q.order := by
  have hlow' : ∀ j, j < p → (q.pushFront p x).data j = [] := by
    intro j hj
    simp [pushFront, show j ≠ p by omega, hlow j hj]
  rw [order_eq_append hp hlow', order_eq_append hp hlow]
  have htail : (List.range' (p + 1) (N - p - 1)).flatMap
      (fun i => ((q.pushFront p x).data i).map (Prod.mk i)) =
      (List.range' (p + 1) (N - p - 1)).flatMap fun i => (q.data i).map (Prod.mk i) := by
    refine List.flatMap_congr fun i hi => ?_
    have : p + 1 ≤ i := (List.mem_range'_1.mp hi).1
    simp [pushFront, show i ≠ p by omega]
  rw [htail]
  simp [pushFront]

/-- Popping and pushing in front are inverse to each other. -/
theorem pushFront_dropFront {rest : List T} (hx : q.data p = x :: rest) :
    (q.dropFront p).pushFront p x = q := by
  cases q
  simp only [dropFront, pushFront, mk.injEq, true_and] at hx ⊢
  funext i
  by_cases hi : i = p
  · subst hi
    simp [hx]
  · simp [hi]

/-- The first thread in the order of service is the front of the lowest nonempty level. -/
theorem front_of_order {rest : List (Nat × T)} (ho : q.order = (p, x) :: rest) :
    p < N ∧ q.data p = x :: (q.data p).tail ∧ (∀ j, j < p → q.data j = []) ∧
      (q.dropFront p).order = rest := by
  have hmem : (p, x) ∈ q.order := by rw [ho]; exact List.mem_cons_self
  obtain ⟨hp, hx⟩ := mem_order.mp hmem
  -- the lowest nonempty level gives the head of the order
  have hex : ∃ i, q.data i ≠ [] := ⟨p, List.ne_nil_of_mem hx⟩
  classical
  have hmin := Nat.find_spec hex
  have hlow : ∀ j, j < Nat.find hex → q.data j = [] := fun j hj =>
    not_not.mp (Nat.find_min hex hj)
  have hle : Nat.find hex ≤ p := Nat.find_min' hex (List.ne_nil_of_mem hx)
  obtain ⟨y, ys, hy⟩ := List.exists_cons_of_ne_nil hmin
  have ho' := order_eq_append (q := q) (p := Nat.find hex) (by omega) hlow
  rw [ho, hy, List.map_cons, List.cons_append] at ho'
  obtain ⟨hpx, hrest⟩ := List.cons.inj ho'
  obtain ⟨hpe, rfl⟩ := Prod.mk.inj hpx
  rw [← hpe] at hy hlow
  refine ⟨hp, by rw [hy, List.tail_cons], hlow, ?_⟩
  have hlow' : ∀ j, j < p → (q.dropFront p).data j = [] := by
    intro j hj
    simp [dropFront, show j ≠ p by omega, hlow j hj]
  have hpush := order_pushFront hp hlow' x
  rw [pushFront_dropFront hy, ho] at hpush
  exact (List.cons.inj hpush).2.symm

theorem data_eq_nil_of_order (ho : q.order = []) (hp : p < N) : q.data p = [] := by
  rw [List.eq_nil_iff_forall_not_mem]
  intro x hx
  have : (p, x) ∈ q.order := mem_order.mpr ⟨hp, hx⟩
  rw [ho] at this
  exact List.not_mem_nil this

/-- What a loop finds from a level up to another: nothing, or the first thread. -/
def Finds (q : ThreadQueueList T N) (lo hi : Nat) (found : Option (Option (Nat × T))) : Prop :=
  (found = some none ∧ ∀ j, lo ≤ j → j < hi → q.data j = []) ∨
    ∃ p x rest, found = some (some (p, x)) ∧ lo ≤ p ∧ p < hi ∧ q.data p = x :: rest ∧
      ∀ j, lo ≤ j → j < p → q.data j = []

/-- One turn of a loop at a linked level. -/
theorem finds_level {hi : Nat} {next : Option (Option (Nat × T))} (hlo : lo ≤ p) (hp : p < hi)
    (hbelow : ∀ j, lo ≤ j → j < p → q.data j = []) (hnext : q.Finds (p + 1) hi next) :
    q.Finds lo hi (match q.data p with
      | x :: _ => some (some (p, x))
      | [] => next) := by
  cases hd : q.data p with
  | cons x rest => exact Or.inr ⟨p, x, rest, rfl, hlo, hp, hd, hbelow⟩
  | nil =>
    have hall : ∀ j, lo ≤ j → j < p + 1 → q.data j = [] := by
      intro j hj hjp
      by_cases hjp' : j = p
      · exact hjp' ▸ hd
      · exact hbelow j hj (by omega)
    rcases hnext with ⟨hs, hn⟩ | ⟨i, x, rest, hs, hi, hip, hx, hb⟩
    · refine Or.inl ⟨hs, fun j hj hjq => ?_⟩
      by_cases hjp : j < p + 1
      · exact hall j hj hjp
      · exact hn j (by omega) hjq
    · refine Or.inr ⟨i, x, rest, hs, by omega, hip, hx, fun j hj hji => ?_⟩
      by_cases hjp : j < p + 1
      · exact hall j hj hjp
      · exact hb j (by omega) hji

/-- What the loop of `pop_first` finds from a pointer on. -/
theorem finds_seek (h : q.WellLinked) {turns : Nat} {cur : Link} (hcur : q.LowestFrom lo cur)
    (hlo : lo ≤ N) (hturns : N + 1 ≤ turns + lo) : q.Finds lo N (q.seek turns cur) := by
  induction turns generalizing lo cur with
  | zero => omega
  | succ turns ih =>
    cases cur with
    | unlinked => exact absurd hcur id
    | null =>
      exact Or.inl ⟨rfl, fun j hj _ => not_not.mp fun hd => hcur j hj (h.linked_of_data j hd)⟩
    | level p =>
      obtain ⟨hlp, hl, hgap⟩ := hcur
      have hpN := h.lt_of_linked p hl
      exact finds_level hlp hpN
        (fun j hj hjp => not_not.mp fun hd => hgap j hj hjp (h.linked_of_data j hd))
        (ih (h.lowest_next p hl) hpN (by omega))

/-- `pop_first_better` finds what `pop_first` would find, if it is below the given level. The level
itself has to be linked: only then the loop stops at a pointer it can compare. -/
theorem finds_seekBetter (h : q.WellLinked) (hprio : q.Linked priority) {turns : Nat} {cur : Link}
    (hcur : q.LowestFrom lo cur) (hlo : lo ≤ priority) (hturns : N + 1 ≤ turns + lo) :
    q.Finds lo priority (q.seekBetter priority turns cur) := by
  have hprioN := h.lt_of_linked priority hprio
  induction turns generalizing lo cur with
  | zero => omega
  | succ turns ih =>
    cases cur with
    | unlinked => exact absurd hcur id
    | null => exact absurd hprio (hcur priority hlo)
    | level p =>
      obtain ⟨hlp, hl, hgap⟩ := hcur
      have hbelow : ∀ j, lo ≤ j → j < p → q.data j = [] := fun j hj hjp =>
        not_not.mp fun hd => hgap j hj hjp (h.linked_of_data j hd)
      rw [seekBetter]
      by_cases hpp : p < priority
      · rw [if_pos hpp]
        exact finds_level hlp hpp hbelow (ih (h.lowest_next p hl) hpp (by omega))
      · rw [if_neg hpp]
        exact Or.inl ⟨rfl, fun j hj hjq => hbelow j hj (by omega)⟩

/-- From the lowest level on a loop finds the head of the order of service. -/
theorem Finds.of_order_cons {hi : Nat} {found : Option (Option (Nat × T))}
    (h : q.Finds 0 hi found) {rest : List (Nat × T)} (ho : q.order = (p, x) :: rest)
    (hlt : p < hi) : found = some (some (p, x)) := by
  obtain ⟨hp, hx, hlow, -⟩ := front_of_order ho
  rcases h with ⟨-, hn⟩ | ⟨i, y, ys, hs, -, -, hy, hb⟩
  · simp [hn p (Nat.zero_le p) hlt] at hx
  · obtain rfl : i = p := by
      rcases Nat.lt_trichotomy i p with hlt | heq | hgt
      · simp [hlow i hlt] at hy
      · exact heq
      · simp [hb p (Nat.zero_le p) hgt] at hx
    rw [hy, List.cons.injEq] at hx
    rw [hs, hx.1]

theorem popFirst_of_order_nil (h : q.WellLinked) (ho : q.order = []) :
    q.popFirst = some (none, q) := by
  rcases finds_seek h h.lowest_first (Nat.zero_le N) (by omega : N + 1 ≤ N + 1 + 0) with
    ⟨hs, -⟩ | ⟨p, x, rest, -, -, hp, hx, -⟩
  · rw [popFirst, hs]
    rfl
  · simp [data_eq_nil_of_order ho hp] at hx

/-- `pop_first` hands out the head of the order of service. -/
theorem popFirst_of_order_cons (h : q.WellLinked) {rest : List (Nat × T)}
    (ho : q.order = (p, x) :: rest) : q.popFirst = some (some (p, x), q.dropFront p) := by
  have hfinds := finds_seek h h.lowest_first (Nat.zero_le N) (by omega : N + 1 ≤ N + 1 + 0)
  rw [popFirst, hfinds.of_order_cons ho (front_of_order ho).1]
  rfl

theorem popFirstBetter_eq_none (h : q.WellLinked) (hprio : q.Linked priority)
    (ho : ∀ e ∈ q.order.head?, priority ≤ e.1) : q.popFirstBetter priority = some (none, q) := by
  rcases finds_seekBetter h hprio h.lowest_first (Nat.zero_le _)
      (by omega : N + 1 ≤ N + 1 + 0) with ⟨hs, -⟩ | ⟨p, x, rest, -, -, hpp, hx, hb⟩
  · rw [popFirstBetter, hs]
    rfl
  · have hp : p < N := (h.lt_of_linked priority hprio).trans' hpp
    have := order_eq_append hp fun j hj => hb j (Nat.zero_le j) hj
    rw [hx] at this
    have hle := ho (p, x) (by rw [this]; rfl)
    exact absurd hpp (Nat.not_lt.mpr hle)

/-- `pop_first_better` hands out the head of the order of service when it is below the level. -/
theorem popFirstBetter_of_order_cons (h : q.WellLinked) (hprio : q.Linked priority)
    {rest : List (Nat × T)} (ho : q.order = (p, x) :: rest) (hpp : p < priority) :
    q.popFirstBetter priority = some (some (p, x), q.dropFront p) := by
  have hfinds := finds_seekBetter h hprio h.lowest_first (Nat.zero_le _)
    (by omega : N + 1 ≤ N + 1 + 0)
  rw [popFirstBetter, hfinds.of_order_cons ho hpp]
  rfl

/-- A level, as a part of the order of service. -/
theorem data_eq_order_filter (q : ThreadQueueList T N) (hp : p < N) :
    q.data p = (q.order.filter fun e => e.1 = p).map Prod.snd := by
  have hlevel : ∀ i, ((q.data i).map (Prod.mk i)).filter (fun e => e.1 = p) =
      if i = p then (q.data i).map (Prod.mk i) else [] := by
    intro i
    rw [List.filter_map]
    by_cases hi : i = p <;> simp [hi, Function.comp_def]
  have hother : ∀ l : List Nat, p ∉ l →
      (l.flatMap fun i => ((q.data i).map (Prod.mk i)).filter fun e => e.1 = p) = [] := by
    intro l hl
    rw [List.flatMap_eq_nil_iff]
    intro i hi
    have hne : i ≠ p := by
      rintro rfl
      exact hl hi
    rw [hlevel, if_neg hne]
  rw [order, range_split hp, List.filter_flatMap, List.flatMap_append, List.flatMap_cons,
    hother _ (by simp), hother _ (by simp), hlevel, if_pos rfl]
  simp [Function.comp_def]

/-! ## Taking a thread out -/

/-- The order of service goes through the levels in increasing order. -/
theorem order_sorted (q : ThreadQueueList T N) : q.order.Pairwise fun a b => a.1 ≤ b.1 := by
  rw [order, List.pairwise_flatMap]
  constructor
  · intro p _
    rw [List.pairwise_map]
    exact List.pairwise_of_forall fun _ _ => le_refl p
  · refine List.pairwise_lt_range.imp fun {p r} hpr x hx y hy => ?_
    obtain ⟨a, -, rfl⟩ := List.mem_map.mp hx
    obtain ⟨b, -, rfl⟩ := List.mem_map.mp hy
    exact hpr.le

/-- The queue without a thread, wherever it is. -/
def without [DecidableEq T] (q : ThreadQueueList T N) (t : T) : ThreadQueueList T N :=
  { q with data := fun p => (q.data p).filter (· ≠ t) }

/-- The queue without what a search found. -/
def withoutFound [DecidableEq T] (q : ThreadQueueList T N) : Option T → ThreadQueueList T N
  | none => q
  | some t => q.without t

/-- No thread is queued twice. -/
def Once (q : ThreadQueueList T N) : Prop := (q.order.map Prod.snd).Nodup

theorem order_without [DecidableEq T] (q : ThreadQueueList T N) (t : T) :
    (q.without t).order = q.order.filter fun e => e.2 ≠ t := by
  rw [order, order, List.filter_flatMap]
  refine List.flatMap_congr fun p _ => ?_
  rw [List.filter_map]
  rfl

theorem without_of_forall_not_mem [DecidableEq T] (ht : ∀ p, t ∉ q.data p) : q.without t = q := by
  have hdata : (fun p => (q.data p).filter (· ≠ t)) = q.data := by
    funext p
    rw [List.filter_eq_self]
    intro x hx
    have : x ≠ t := fun he => ht p (he ▸ hx)
    simp [this]
  show { q with data := fun p => (q.data p).filter (· ≠ t) } = q
  rw [hdata]

theorem without_pushFront [DecidableEq T] (q : ThreadQueueList T N) (p : Nat) (hxt : x ≠ t) :
    (q.pushFront p x).without t = (q.without t).pushFront p x := by
  simp only [without, pushFront, mk.injEq, true_and]
  funext i
  by_cases hip : i = p
  · subst hip
    simp [hxt]
  · simp [hip]

/-- Popping the first thread takes it out, when no thread is queued twice. -/
theorem dropFront_eq_without [DecidableEq T] (hbound : ∀ p, q.data p ≠ [] → p < N) (honce : q.Once)
    {rest : List (Nat × T)} (ho : q.order = (p, x) :: rest) : q.dropFront p = q.without x := by
  obtain ⟨hp, hx, -, hrest⟩ := front_of_order ho
  have hnot : x ∉ rest.map Prod.snd := by
    unfold Once at honce
    rw [ho, List.map_cons, List.nodup_cons] at honce
    exact honce.1
  have hgone : ∀ i, x ∉ (q.dropFront p).data i := by
    intro i hi
    have hiN : i < N := by
      refine hbound i fun he => ?_
      by_cases hip : i = p
      · subst hip
        simp [dropFront, he] at hi
      · simp [dropFront, hip, he] at hi
    apply hnot
    rw [← hrest]
    exact List.mem_map.mpr ⟨(i, x), mem_order.mpr ⟨hiN, hi⟩, rfl⟩
  have hback : (q.dropFront p).pushFront p x = q := pushFront_dropFront hx
  calc q.dropFront p = (q.dropFront p).without x := (without_of_forall_not_mem hgone).symm
    _ = ((q.dropFront p).pushFront p x).without x := by
      simp only [without, pushFront, mk.injEq, true_and]
      funext i
      by_cases hip : i = p
      · subst hip
        simp
      · simp [hip]
    _ = q.without x := by rw [hback]

/-! ## The queue as a map from threads to levels -/

/-- The list is linked and holds exactly the threads with a level in `levels`, each once and at
that level. -/
structure Holds (q : ThreadQueueList T N) (levels : T → Option Nat) : Prop where
  wellLinked : q.WellLinked
  mem_data : ∀ {p x}, x ∈ q.data p ↔ levels x = some p
  nodup_data : ∀ p, (q.data p).Nodup

theorem holds_empty : (empty : ThreadQueueList T N).Holds fun _ => none where
  wellLinked := wellLinked_empty
  mem_data := by simp [empty]
  nodup_data := fun _ => List.nodup_nil

theorem Holds.congr {levels' : T → Option Nat} (h : q.Holds levels) (hl : ∀ x, levels' x = levels x)
    :
    q.Holds levels' :=
  (funext hl : levels' = levels) ▸ h

theorem Holds.prepare (h : q.Holds levels) (hp : p < N) : (q.prepare p).Holds levels where
  wellLinked := h.wellLinked.prepare hp
  mem_data := by simp [h.mem_data]
  nodup_data := by simp [h.nodup_data]

theorem Holds.lt_of_mem (h : q.Holds levels) (hp : q.data p ≠ []) : p < N :=
  h.wellLinked.lt_of_linked p (h.wellLinked.linked_of_data p hp)

theorem Holds.mem_order (h : q.Holds levels) {e : Nat × T} :
    e ∈ q.order ↔ levels e.2 = some e.1 := by
  rw [ThreadQueueList.mem_order, h.mem_data, and_iff_right_iff_imp]
  exact fun he => h.lt_of_mem (List.ne_nil_of_mem (h.mem_data.mpr he))

theorem Holds.once (h : q.Holds levels) : q.Once := by
  unfold Once order
  rw [List.map_flatMap, List.nodup_flatMap]
  constructor
  · intro p _
    rw [List.map_map]
    simpa [Function.comp_def] using h.nodup_data p
  · refine List.nodup_range.imp fun {p r} hpr => ?_
    intro x hx hy
    have hp : levels x = some p := h.mem_data.mp (by simpa using hx)
    have hr : levels x = some r := h.mem_data.mp (by simpa using hy)
    exact hpr (Option.some.inj (hp.symm.trans hr))

variable [DecidableEq T]

theorem Holds.pushBack (h : q.Holds levels) (hp : q.Linked p) (ht : levels t = none) :
    (q.pushBack p t).Holds (update levels t (some p)) where
  wellLinked := h.wellLinked.pushBack hp t
  mem_data := by
    intro i x
    by_cases hip : i = p
    · subst hip
      by_cases hxt : x = t <;> simp [ThreadQueueList.pushBack, hxt, h.mem_data]
    · by_cases hxt : x = t <;>
        simp [ThreadQueueList.pushBack, hip, Ne.symm hip, hxt, h.mem_data, ht]
  nodup_data := by
    intro i
    by_cases hip : i = p
    · subst hip
      have hno : t ∉ q.data i := by simp [h.mem_data, ht]
      simpa [ThreadQueueList.pushBack] using
        List.nodup_append_comm.mp (List.nodup_cons.mpr ⟨hno, h.nodup_data i⟩)
    · simpa [ThreadQueueList.pushBack, hip] using h.nodup_data i

theorem Holds.pushFront (h : q.Holds levels) (hp : q.Linked p) (ht : levels t = none) :
    (q.pushFront p t).Holds (update levels t (some p)) where
  wellLinked := h.wellLinked.pushFront hp t
  mem_data := by
    intro i x
    by_cases hip : i = p
    · subst hip
      by_cases hxt : x = t <;> simp [ThreadQueueList.pushFront, hxt, h.mem_data]
    · by_cases hxt : x = t <;>
        simp [ThreadQueueList.pushFront, hip, Ne.symm hip, hxt, h.mem_data, ht]
  nodup_data := by
    intro i
    by_cases hip : i = p
    · subst hip
      have hno : t ∉ q.data i := by simp [h.mem_data, ht]
      simpa [ThreadQueueList.pushFront, hno] using h.nodup_data i
    · simpa [ThreadQueueList.pushFront, hip] using h.nodup_data i

theorem Holds.remove (h : q.Holds levels) (ht : ∀ i, levels t = some i → i = p) :
    (q.remove p t).Holds (update levels t none) where
  wellLinked := h.wellLinked.remove p t
  mem_data := by
    intro i x
    by_cases hxt : x = t
    · subst hxt
      by_cases hip : i = p
      · simp [ThreadQueueList.remove, hip]
      · simpa [ThreadQueueList.remove, hip, h.mem_data] using fun hi => hip (ht i hi)
    · by_cases hip : i = p
      · subst hip
        simp [ThreadQueueList.remove, hxt, h.mem_data]
      · simp [ThreadQueueList.remove, hip, hxt, h.mem_data]
  nodup_data := by
    intro i
    by_cases hip : i = p
    · subst hip
      show (update q.data i ((q.data i).filter (· ≠ t)) i).Nodup
      rw [update_self]
      exact (h.nodup_data i).filter _
    · simpa [ThreadQueueList.remove, hip] using h.nodup_data i

theorem Holds.without (h : q.Holds levels) (t : T) :
    (q.without t).Holds (update levels t none) where
  wellLinked := h.wellLinked.with_data fun p hp =>
    h.wellLinked.linked_of_data p fun he => hp (by simp [he])
  mem_data := by
    intro i x
    by_cases hxt : x = t <;> simp [ThreadQueueList.without, hxt, h.mem_data]
  nodup_data := fun i => (h.nodup_data i).filter _

theorem Holds.move (h : q.Holds levels) {old new : Nat} (hnew : new < N)
    (ht : ∀ i, levels t = some i → i = old) :
    (q.move t old new).Holds (update levels t (some new)) := by
  have hr := h.remove ht
  have hlinked : ((q.remove old t).prepare new).Linked new :=
    (linked_prepare hr.wellLinked new).mpr (Or.inr rfl)
  have hm := (hr.prepare hnew).pushBack hlinked (t := t) (by simp)
  rwa [update_idem] at hm

theorem linked_move (h : q.WellLinked) (t : T) (old new i : Nat) :
    (q.move t old new).Linked i ↔ q.Linked i ∨ i = new :=
  linked_prepare (h.remove old t) i

end ThreadQueueList

end GbaStation.Common
