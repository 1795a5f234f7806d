import Mathlib.Algebra.Order.Ring.Int
import Mathlib.Data.List.Nodup
import Mathlib.Data.List.Perm.Basic
import Mathlib.Data.List.Range
import Mathlib.Logic.Function.Basic

/-!
# Caches that evict the least recently used element (`common/static_lru_cache.h`)

Elements live in the slots of an array that is never cleared; a list in the order of use says which
key has which slot. Asking for a key that is not there gives it a slot with whatever an earlier
element left in it.

- `calls_keys`: over any calls, the keys are those that were used last.
-/

namespace GbaStation.Common

open Prod (snd fst)

universe u v

/-- The cached elements: `list` has the most recently used key first. -/
structure StaticLRUCache (K : Type u) (V : Type v) where
  array : Nat → V
  list : List (K × Nat)

namespace StaticLRUCache

variable {K : Type u} {V : Type v} [DecidableEq K] {c : StaticLRUCache K V} {capacity : Nat}

/-! ## Operations -/

def contains (c : StaticLRUCache K V) (key : K) : Bool := c.list.any fun e => e.1 = key

/-- Gives a new key the next unused slot, or the one of the least recently used key. -/
def insert (c : StaticLRUCache K V) (capacity : Nat) (key : K) : Nat × StaticLRUCache K V :=
  if c.list.length < capacity then
    (c.list.length, { c with list := (key, c.list.length) :: c.list })
  else
    let evicted := (c.list.getLast?.map snd).getD 0
    (evicted, { c with list := (key, evicted) :: c.list.dropLast })

/-- Asks for an element: whether it was there, and its slot. -/
def request (c : StaticLRUCache K V) (capacity : Nat) (key : K) :
    Bool × Nat × StaticLRUCache K V :=
  match c.list.find? fun e => e.1 = key with
  | some e => (true, e.2, { c with list := e :: c.list.eraseP fun e => e.1 = key })
  | none => (false, c.insert capacity key)

/-- Writes to a slot. -/
def store (c : StaticLRUCache K V) (slot : Nat) (value : V) : StaticLRUCache K V :=
  { c with array := Function.update c.array slot value }

def clear (c : StaticLRUCache K V) : StaticLRUCache K V := { c with list := [] }

/-! ## The map -/

/-- The slot of a key. -/
def slot (c : StaticLRUCache K V) (key : K) : Option Nat :=
  (c.list.find? fun e => e.1 = key).map snd

def lookup (c : StaticLRUCache K V) (key : K) : Option V := (c.slot key).map c.array

/-- Every key once, and the first slots, each once. -/
structure WellFormed (capacity : Nat) (c : StaticLRUCache K V) : Prop where
  keys : (c.list.map fst).Nodup
  slots : (c.list.map snd).Perm (List.range c.list.length)
  length_le : c.list.length ≤ capacity

omit [DecidableEq K] in
theorem WellFormed.clear (c : StaticLRUCache K V) : c.clear.WellFormed capacity where
  keys := List.nodup_nil
  slots := List.Perm.nil
  length_le := Nat.zero_le _

theorem slot_eq_some (hc : c.WellFormed capacity) {key : K} {i : Nat} :
    c.slot key = some i ↔ (key, i) ∈ c.list := by
  unfold slot
  constructor
  · intro h
    obtain ⟨e, he, rfl⟩ := Option.map_eq_some_iff.mp h
    have hkey : e.1 = key := by simpa using List.find?_some he
    rw [← hkey]
    exact List.mem_of_find?_eq_some he
  · intro h
    cases hfind : c.list.find? fun e => e.1 = key with
    | none => simpa using List.find?_eq_none.mp hfind _ h
    | some e =>
      have hkey : e.1 = key := by simpa using List.find?_some hfind
      have he : e = (key, i) :=
        List.inj_on_of_nodup_map hc.keys (List.mem_of_find?_eq_some hfind) h hkey
      rw [he]
      rfl

theorem slot_eq_none {key : K} : c.slot key = none ↔ ∀ i, (key, i) ∉ c.list := by
  unfold slot
  rw [Option.map_eq_none_iff, List.find?_eq_none]
  constructor
  · intro h i hi
    simpa using h _ hi
  · rintro h ⟨k, i⟩ hi
    simp only [decide_eq_true_eq]
    rintro rfl
    exact h i hi

theorem contains_iff {key : K} : c.contains key = true ↔ c.lookup key ≠ none := by
  unfold contains lookup slot
  rw [ne_eq, Option.map_eq_none_iff, Option.map_eq_none_iff, List.find?_eq_none]
  simp

omit [DecidableEq K] in
/-- Two keys do not share a slot. -/
theorem WellFormed.slot_inj (hc : c.WellFormed capacity) {k k' : K} {i : Nat}
    (h : (k, i) ∈ c.list) (h' : (k', i) ∈ c.list) : k = k' := by
  have hnodup : (c.list.map snd).Nodup := hc.slots.nodup_iff.mpr List.nodup_range
  have := List.inj_on_of_nodup_map hnodup h h' rfl
  exact congrArg fst this

omit [DecidableEq K] in
theorem WellFormed.slot_lt (hc : c.WellFormed capacity) {k : K} {i : Nat}
    (h : (k, i) ∈ c.list) : i < c.list.length := by
  have : i ∈ c.list.map snd := List.mem_map.mpr ⟨_, h, rfl⟩
  rw [hc.slots.mem_iff, List.mem_range] at this
  exact this

omit [DecidableEq K] in
theorem WellFormed.store (hc : c.WellFormed capacity) (i : Nat) (value : V) :
    (c.store i value).WellFormed capacity :=
  ⟨hc.keys, hc.slots, hc.length_le⟩

/-- Two caches that hold the same keys in the same slots stand for the same map. -/
theorem lookup_congr {c' : StaticLRUCache K V} (hc : c.WellFormed capacity)
    (hc' : c'.WellFormed capacity) (hmem : ∀ e, e ∈ c'.list ↔ e ∈ c.list)
    (harray : c'.array = c.array) (key : K) : c'.lookup key = c.lookup key := by
  have hslot : c'.slot key = c.slot key := by
    ext i
    rw [slot_eq_some hc', slot_eq_some hc, hmem]
  rw [lookup, lookup, hslot, harray]

/-! ## Requests -/

/-- Moving what a search finds to the front. -/
theorem cons_eraseP_perm {α : Type u} {p : α → Bool} {l : List α} {a : α}
    (h : l.find? p = some a) : (a :: l.eraseP p).Perm l := by
  obtain ⟨ha, before, behind, rfl, hbefore⟩ := List.find?_eq_some_iff_append.mp h
  have hnot : ∀ b ∈ before, ¬ p b = true := by
    intro b hb
    simpa using hbefore b hb
  rw [List.eraseP_append_right _ hnot, List.eraseP_cons_of_pos ha]
  exact List.perm_middle.symm

/-- A key that is there moves to the front; the map stays. -/
theorem request_of_lookup_eq_some (hc : c.WellFormed capacity) {key : K} {value : V}
    (h : c.lookup key = some value) :
    ∃ i c', c.request capacity key = (true, i, c') ∧ c'.WellFormed capacity ∧
      c'.array i = value ∧ ∀ k, c'.lookup k = c.lookup k := by
  obtain ⟨i, hi, rfl⟩ := Option.map_eq_some_iff.mp h
  obtain ⟨e, he, rfl⟩ := Option.map_eq_some_iff.mp hi
  have hperm := cons_eraseP_perm he
  have hc' : (⟨c.array, e :: c.list.eraseP fun e => e.1 = key⟩ :
      StaticLRUCache K V).WellFormed capacity := by
    refine ⟨?_, ?_, ?_⟩
    · exact (hperm.map fst).nodup_iff.mpr hc.keys
    · rw [hperm.length_eq]
      exact (hperm.map snd).trans hc.slots
    · rw [hperm.length_eq]
      exact hc.length_le
  refine ⟨e.2, ⟨c.array, e :: c.list.eraseP fun e => e.1 = key⟩, ?_, hc', rfl, ?_⟩
  · rw [request, he]
  · exact lookup_congr hc hc' (fun _ => hperm.mem_iff) rfl

/-- The keys that keep their slots when a new key is inserted. -/
def kept (c : StaticLRUCache K V) (capacity : Nat) : List (K × Nat) :=
  if c.list.length < capacity then c.list else c.list.dropLast

omit [DecidableEq K] in
theorem kept_sublist (c : StaticLRUCache K V) (capacity : Nat) :
    (c.kept capacity).Sublist c.list := by
  unfold kept
  split
  · exact List.Sublist.refl _
  · exact List.dropLast_sublist _

omit [DecidableEq K] in
/-- Where a new key goes: to a slot that no kept key has. -/
theorem insert_eq (hc : c.WellFormed capacity) (hcap : 0 < capacity) (key : K) :
    ∃ i, c.insert capacity key = (i, { c with list := (key, i) :: c.kept capacity }) ∧
      (i :: (c.kept capacity).map snd).Perm
        (List.range ((c.kept capacity).length + 1)) ∧
      (c.kept capacity).length + 1 ≤ capacity := by
  unfold insert kept
  split
  · next hlt =>
    refine ⟨_, rfl, ?_, hlt⟩
    rw [List.range_succ]
    exact (hc.slots.cons _).trans (List.perm_append_singleton _ _).symm
  · next hge =>
    have hlen : c.list.length = capacity := Nat.le_antisymm hc.length_le (Nat.not_lt.mp hge)
    have hne : c.list ≠ [] := by
      rintro hnil
      rw [hnil, List.length_nil] at hlen
      omega
    have hsplit := List.dropLast_append_getLast hne
    have hcount : c.list.dropLast.length + 1 = c.list.length := by
      rw [List.length_dropLast]
      omega
    refine ⟨_, rfl, ?_, ?_⟩
    · have hslots := hc.slots
      rw [← hcount] at hslots
      refine List.Perm.trans ?_ hslots
      conv_rhs => rw [← hsplit]
      rw [List.getLast?_eq_some_getLast hne, List.map_append]
      exact (List.perm_append_singleton _ _).symm
    · rw [hcount, hlen]

/-- A key that is not there gets a slot with an old value in it; what is stored there becomes its
value, and the other keys keep theirs or are forgotten. -/
theorem request_of_lookup_eq_none (hc : c.WellFormed capacity) (hcap : 0 < capacity) {key : K}
    (h : c.lookup key = none) :
    ∃ i c', c.request capacity key = (false, i, c') ∧ c'.WellFormed capacity ∧
      ∀ value, (c'.store i value).array i = value ∧ (c'.store i value).lookup key = some value ∧
        ∀ k v, k ≠ key → (c'.store i value).lookup k = some v → c.lookup k = some v := by
  have hslot : c.slot key = none := Option.map_eq_none_iff.mp h
  have hfind : (c.list.find? fun e => e.1 = key) = none := Option.map_eq_none_iff.mp hslot
  have hfresh := slot_eq_none.mp hslot
  obtain ⟨i, hinsert, hperm, hle⟩ := insert_eq hc hcap key
  have hsub := c.kept_sublist capacity
  have hc' : ({ c with list := (key, i) :: c.kept capacity } :
      StaticLRUCache K V).WellFormed capacity := by
    refine ⟨?_, hperm, hle⟩
    refine List.nodup_cons.mpr ⟨?_, hc.keys.sublist (hsub.map _)⟩
    intro hmem
    obtain ⟨⟨k, j⟩, he, rfl⟩ := List.mem_map.mp hmem
    exact hfresh j (hsub.subset he)
  refine ⟨i, _, by rw [request, hfind, hinsert], hc',
    fun value => ⟨Function.update_self .., ?_, fun k v hne hk => ?_⟩⟩
  · have hstore := (slot_eq_some (hc'.store i value)).mpr (List.mem_cons_self (a := (key, i)))
    rw [lookup, hstore]
    simp [store]
  · obtain ⟨j, hj, rfl⟩ := Option.map_eq_some_iff.mp hk
    have hjmem : (k, j) ∈ (key, i) :: c.kept capacity := (slot_eq_some (hc'.store i value)).mp hj
    have hkept : (k, j) ∈ c.kept capacity := by
      rcases List.mem_cons.mp hjmem with heq | hmem
      · exact absurd (congrArg fst heq) hne
      · exact hmem
    have hji : j ≠ i := by
      rintro rfl
      exact hne (hc'.slot_inj hjmem List.mem_cons_self)
    have hold : c.slot k = some j := (slot_eq_some hc).mpr (hsub.subset hkept)
    rw [lookup, hold]
    simp [store, hji]

/-! ## Runs -/

/-- A request for a key, or `clear`. -/
def call (capacity : Nat) (c : StaticLRUCache K V) : Option K → StaticLRUCache K V
  | some key => (c.request capacity key).2.2
  | none => c.clear

/-- The keys since the last `clear`, by their last use. -/
def use (keys : List K) : Option K → List K
  | some key => key :: keys.erase key
  | none => []

theorem take_erase_take (keys : List K) (key : K) (n : Nat) :
    ((keys.take (n + 1)).erase key).take n = (keys.erase key).take n := by
  induction keys generalizing n with
  | nil => rfl
  | cons k keys ih =>
    rw [List.take_succ_cons, List.erase_cons, List.erase_cons]
    split
    · rw [List.take_take, Nat.min_self]
    · cases n with
      | zero => rfl
      | succ n => rw [List.take_succ_cons, List.take_succ_cons, ih]

/-- The key comes first; without room the others lose the last one. -/
theorem request_keys {n : Nat} (hle : c.list.length ≤ n + 1) (key : K) :
    (c.request (n + 1) key).2.2.list.map fst =
      key :: ((c.list.map fst).erase key).take n := by
  cases hfind : c.list.find? fun e => e.1 = key with
  | some e =>
    have hkey : e.1 = key := by simpa using List.find?_some hfind
    have hmem : key ∈ c.list.map fst :=
      List.mem_map.mpr ⟨e, List.mem_of_find?_eq_some hfind, hkey⟩
    -- a key that is there makes room for itself
    have hlength : ((c.list.map fst).erase key).length ≤ n := by
      rw [List.length_erase_of_mem hmem, List.length_map]
      omega
    rw [request, hfind, List.take_of_length_le hlength, List.erase_eq_eraseP', List.eraseP_map,
      List.map_cons, hkey]
    rfl
  | none =>
    have hnot : key ∉ c.list.map fst := fun hmem => by
      obtain ⟨e, he, hkey⟩ := List.mem_map.mp hmem
      simpa [hkey] using List.find?_eq_none.mp hfind e he
    rw [request, hfind, List.erase_of_not_mem hnot, ← List.map_take]
    show (c.insert (n + 1) key).2.list.map fst = _
    unfold insert
    split
    · rw [List.take_of_length_le (by omega), List.map_cons]
    · rw [List.map_cons, List.dropLast_eq_take, show c.list.length - 1 = n by omega]

/-- The keys are the last ones that were used, in the order of use. -/
theorem calls_keys (n : Nat) (array : Nat → V) (calls : List (Option K)) :
    (calls.foldl (call (n + 1)) ⟨array, []⟩).list.map fst =
      (calls.foldl use []).take (n + 1) := by
  induction calls using List.reverseRecOn with
  | nil => rfl
  | append_singleton calls last ih =>
    rw [List.foldl_append, List.foldl_append]
    cases last with
    | none => rfl
    | some key =>
      have hle := congrArg List.length ih
      rw [List.length_map, List.length_take] at hle
      refine (request_keys (by omega) key).trans ?_
      rw [ih]
      exact congrArg (key :: ·) (take_erase_take _ key n)

end StaticLRUCache

end GbaStation.Common
