import GbaStation.Kernel.HandleTable
import Mathlib.Data.List.Nodup

/-!
# Handles over a run

A run on a fresh table keeps a **log**, newest event first: the handles that `Create` and
`Duplicate` returned, each with its object, and the handles that `Close` closed. `live log`
lists the handles that were returned and not closed since.

`Consistent` ties the table to the log: the free list and the slots of the live handles
make up all slots, each live handle is in its slot, and the generations count the creations.
A table that is consistent answers for a handle `h` as the log says, except when bit 31 of
`h` is set and the handle without it is live: `getSlot` drops that bit.
-/

namespace GbaStation.Kernel

universe u

namespace HandleTable

variable {O : Type u}

/-- What happened to a handle. -/
inductive Event (O : Type u)
  | created (handle : Handle) (object : O)
  | closed (handle : Handle)

/-- The handles returned and not closed since, with their objects. -/
def live : List (Event O) → List (Handle × O)
  | [] => []
  | .created h o :: log => (h, o) :: live log
  | .closed h :: log => (live log).filter fun e => decide (e.1 ≠ h)

/-- The number of creations. -/
def creations : List (Event O) → Nat
  | [] => 0
  | .created _ _ :: log => creations log + 1
  | .closed _ :: log => creations log

theorem creations_append (newer older : List (Event O)) :
    creations (newer ++ older) = creations newer + creations older := by
  induction newer with
  | nil => simp [creations]
  | cons e newer ih =>
    cases e with
    | created h o =>
      simp only [List.cons_append, creations, ih]
      omega
    | closed h => exact ih

/-- The links from `slot` on, up to the end of the free list. -/
def FreeList (generations : Nat → Nat) : Nat → List Nat → Prop
  | slot, [] => slot = maxCount
  | slot, s :: free => slot = s ∧ FreeList generations (generations s) free

/-- Links outside the list do not matter. -/
theorem FreeList.congr {g g' : Nat → Nat} {slot : Nat} {free : List Nat} (h : FreeList g slot free)
    (hg : ∀ s ∈ free, g' s = g s) : FreeList g' slot free := by
  induction free generalizing slot with
  | nil => exact h
  | cons s free ih =>
    obtain ⟨hs, hg⟩ := List.forall_mem_cons.mp hg
    refine ⟨h.1, ?_⟩
    rw [hs]
    exact ih h.2 hg

theorem freeList_range (n k : Nat) (h : k + n = maxCount) :
    FreeList (fun i => i + 1) k (List.range' k n) := by
  induction n generalizing k with
  | zero => exact h
  | succ n ih => exact ⟨rfl, ih (k + 1) (by omega)⟩

/-- The table and the log agree; `free` is the free list. -/
structure Consistent (t : HandleTable O) (log : List (Event O)) (free : List Nat) : Prop where
  freeList : FreeList t.generations t.nextFreeSlot free
  slots : (free ++ (live log).map fun e => getSlot e.1).Perm (List.range maxCount)
  empty : ∀ s ∈ free, t.objects s = none
  entry : ∀ e ∈ live log, t.objects (getSlot e.1) = some e.2 ∧
    t.generations (getSlot e.1) = getGeneration e.1 ∧ e.1.toNat < 2 ^ 31
  generation : t.nextGeneration = creations log % (2 ^ 15 - 1) + 1
  history : ∀ newer h o older, log = newer ++ .created h o :: older →
    getGeneration h = creations older % (2 ^ 15 - 1) + 1 ∧ h.toNat < 2 ^ 31

variable {t : HandleTable O} {log : List (Event O)} {free : List Nat}

theorem consistent_init : Consistent (init : HandleTable O) [] (List.range maxCount) where
  freeList := by
    rw [List.range_eq_range']
    exact freeList_range maxCount 0 (Nat.zero_add _)
  slots := by
    simp [live]
  empty _ _ := rfl
  entry e he := by cases he
  generation := rfl
  history newer h o older heq := by simp at heq

variable {x : Handle} {o : O}

namespace Consistent

theorem nodup (h : Consistent t log free) :
    (free ++ (live log).map fun e => getSlot e.1).Nodup :=
  h.slots.nodup_iff.mpr List.nodup_range

theorem slot_lt (h : Consistent t log free) {e : Handle × O} (he : e ∈ live log) :
    getSlot e.1 < maxCount := by
  rw [← List.mem_range, ← h.slots.mem_iff]
  exact List.mem_append_right _ (List.mem_map_of_mem he)

variable {s : Nat}

theorem lt_of_free (h : Consistent t log free) (hs : s ∈ free) : s < maxCount := by
  rw [← List.mem_range, ← h.slots.mem_iff]
  exact List.mem_append_left _ hs

/-- A slot is free, or a live handle is in it. -/
theorem free_or_live (h : Consistent t log free) (hs : s < maxCount) :
    s ∈ free ∨ ∃ e ∈ live log, getSlot e.1 = s := by
  rw [← List.mem_range, ← h.slots.mem_iff] at hs
  rcases List.mem_append.mp hs with hs | hs
  · exact Or.inl hs
  · exact Or.inr (List.mem_map.mp hs)

theorem live_length (h : Consistent t log free) : free.length + (live log).length = maxCount := by
  have := h.slots.length_eq
  simpa using this

/-- A valid handle is live, up to bit 31. -/
theorem isValid_iff (h : Consistent t log free) (x : Handle) :
    t.isValid x = true ↔ ∃ o, (clearTop x, o) ∈ live log := by
  unfold isValid
  rw [Bool.and_eq_true, Bool.and_eq_true, decide_eq_true_eq, decide_eq_true_eq, and_assoc]
  constructor
  · rintro ⟨hlt, hobj, hgen⟩
    rcases h.free_or_live hlt with hfree | ⟨⟨x', o⟩, he, hs⟩
    · rw [h.empty _ hfree] at hobj
      cases hobj
    · obtain ⟨-, hgen', hx'⟩ := h.entry _ he
      rw [hs] at hgen'
      have hxx : x' = clearTop x := eq_clearTop hx' hs (hgen'.symm.trans hgen)
      exact ⟨o, hxx ▸ he⟩
  · rintro ⟨o, he⟩
    obtain ⟨hobj, hgen, -⟩ := h.entry _ he
    have hlt := h.slot_lt he
    rw [getSlot_clearTop] at hobj hgen hlt
    rw [getGeneration_clearTop] at hgen
    exact ⟨hlt, by rw [hobj]; rfl, hgen⟩

theorem objects_of_isValid (h : Consistent t log free) (he : (clearTop x, o) ∈ live log) :
    t.objects (getSlot x) = some o := by
  obtain ⟨hobj, -⟩ := h.entry _ he
  rwa [getSlot_clearTop] at hobj

/-- The next generation fits in 15 bits. -/
theorem nextGeneration_lt (h : Consistent t log free) :
    0 < t.nextGeneration ∧ t.nextGeneration < 2 ^ 15 := by
  have := h.generation
  omega

theorem bump (h : Consistent t log free) :
    bumpGeneration t.nextGeneration = (creations log + 1) % (2 ^ 15 - 1) + 1 := by
  unfold bumpGeneration
  rw [h.generation, show 1 <<< 15 = 2 ^ 15 from rfl]
  split_ifs <;> omega

/-! ## The operations -/

/-- `Create` with no free slot: all handles are live, and nothing changes. -/
theorem create_full (h : Consistent t log []) (o : O) :
    t.create o = (.error Result.outOfHandles, t) := by
  unfold create
  have hslot : t.nextFreeSlot = maxCount := h.freeList
  simp only [hslot]
  rw [if_pos (Nat.le_refl _)]

/-- `Create` takes the first free slot. -/
theorem create_free (h : Consistent t log (s :: free)) (o : O) :
    ∃ t', t.create o = (.ok (packHandle s t.nextGeneration), t') ∧
      t.objects s = none ∧
      Consistent t' (.created (packHandle s t.nextGeneration) o :: log) free := by
  have hs := h.lt_of_free (List.mem_cons_self ..)
  obtain ⟨-, hg⟩ := h.nextGeneration_lt
  have hslot : t.nextFreeSlot = s := h.freeList.1
  have hnodup := h.nodup
  rw [List.cons_append, List.nodup_cons, List.mem_append, not_or] at hnodup
  obtain ⟨⟨hsfree, hslive⟩, -⟩ := hnodup
  unfold create
  simp only [hslot]
  rw [if_neg (Nat.not_le.mpr hs)]
  refine ⟨_, rfl, h.empty s (List.mem_cons_self ..), ?_⟩
  constructor
  · refine h.freeList.2.congr fun s' hs' => if_neg ?_
    rintro rfl
    exact hsfree hs'
  · simp only [live, List.map_cons, getSlot_packHandle hs hg]
    exact List.perm_middle.trans h.slots
  · intro s' hs'
    dsimp only
    rw [if_neg]
    · exact h.empty s' (List.mem_cons_of_mem _ hs')
    · rintro rfl
      exact hsfree hs'
  · intro e he
    rcases List.mem_cons.mp he with rfl | he
    · dsimp only
      rw [getSlot_packHandle hs hg, getGeneration_packHandle hs hg, if_pos rfl, if_pos rfl]
      exact ⟨rfl, rfl, packHandle_lt hs hg⟩
    · have hne : getSlot e.1 ≠ s := fun heq => hslive (heq ▸ List.mem_map_of_mem he)
      dsimp only
      rw [if_neg hne, if_neg hne]
      exact h.entry e he
  · exact h.bump
  · intro newer h' o' older heq
    cases newer with
    | nil =>
      obtain ⟨⟨rfl, rfl⟩, rfl⟩ : (packHandle s t.nextGeneration = h' ∧ o = o') ∧ log = older := by
        simpa using heq
      rw [getGeneration_packHandle hs hg]
      exact ⟨h.generation, packHandle_lt hs hg⟩
    | cons e newer =>
      obtain ⟨-, rfl⟩ : _ ∧ log = newer ++ .created h' o' :: older := by simpa using heq
      exact h.history newer h' o' older rfl

/-- `Close` of a live handle frees its slot. -/
theorem close_live (h : Consistent t log free) (he : (x, o) ∈ live log) :
    ∃ t', t.close x = (Result.success, t') ∧
      Consistent t' (.closed x :: log) (getSlot x :: free) := by
  have hx : x.toNat < 2 ^ 31 := (h.entry _ he).2.2
  have hvalid : t.isValid x = true := (h.isValid_iff x).mpr ⟨o, by rwa [clearTop_eq_self hx]⟩
  unfold close
  rw [if_neg (by simp [hvalid])]
  refine ⟨_, rfl, ?_⟩
  -- the live handles around the one that is closed
  obtain ⟨pre, post, hlive⟩ := List.append_of_mem he
  have hslots := h.nodup
  rw [hlive, List.map_append, List.map_cons] at hslots
  have hnodup := (List.nodup_append.mp hslots).2.1
  have hout : ∀ e ∈ pre ++ post, getSlot e.1 ≠ getSlot x := by
    intro e hmem heq
    have hperm := List.perm_middle.nodup_iff.mp hnodup
    rw [List.nodup_cons, ← List.map_append] at hperm
    exact hperm.1 (List.mem_map.mpr ⟨e, hmem, heq⟩)
  have hclosed : live (.closed x :: log) = pre ++ post := by
    have hkeep : ∀ es : List (Handle × O), (∀ e ∈ es, getSlot e.1 ≠ getSlot x) →
        es.filter (fun e => decide (e.1 ≠ x)) = es := by
      refine fun es hes => List.filter_eq_self.mpr fun e hmem => decide_eq_true fun heq => ?_
      exact hes e hmem (by rw [heq])
    rw [live, hlive, List.filter_append, List.filter_cons, if_neg (by simp),
      hkeep pre fun e hmem => hout e (List.mem_append_left _ hmem),
      hkeep post fun e hmem => hout e (List.mem_append_right _ hmem)]
  have hfree : getSlot x ∉ free := by
    intro hs
    have hdisj := (List.nodup_append.mp hslots).2.2
    exact hdisj _ hs _ (by simp) rfl
  constructor
  · refine ⟨rfl, ?_⟩
    dsimp only
    rw [if_pos rfl]
    refine h.freeList.congr fun s hs => if_neg ?_
    rintro rfl
    exact hfree hs
  · rw [hclosed, List.map_append, List.cons_append]
    refine List.Perm.trans ?_ h.slots
    rw [hlive, List.map_append, List.map_cons, ← List.append_assoc, ← List.append_assoc]
    exact List.perm_middle.symm
  · intro s hs
    dsimp only
    split_ifs with heq
    · rfl
    · exact h.empty s ((List.mem_cons.mp hs).resolve_left heq)
  · intro e hmem
    rw [hclosed] at hmem
    have hne := hout e hmem
    dsimp only
    rw [if_neg hne, if_neg hne]
    refine h.entry e ?_
    rw [hlive]
    rcases List.mem_append.mp hmem with hmem | hmem
    · exact List.mem_append_left _ hmem
    · exact List.mem_append_right _ (List.mem_cons_of_mem _ hmem)
  · exact h.generation
  · intro newer h' o' older heq
    cases newer with
    | nil => simp at heq
    | cons e newer =>
      obtain ⟨-, rfl⟩ : _ ∧ log = newer ++ .created h' o' :: older := by simpa using heq
      exact h.history newer h' o' older rfl

/-- `Close` of a handle that is not valid does nothing. -/
theorem close_invalid (hx : t.isValid x = false) : t.close x = (Result.invalidHandle, t) := by
  unfold close
  rw [if_pos (by simp [hx])]

end Consistent

/-! ## What the log says about one handle -/

/-- Bit 31 of the handle is clear, or the handle without it is not live. -/
def Unaliased (log : List (Event O)) (x : Handle) : Prop :=
  x.toNat < 2 ^ 31 ∨ ∀ o, (clearTop x, o) ∉ live log

/-- Events that create no `x` leave it live unless they close it. -/
theorem mem_live_append {newer older : List (Event O)} (hnew : ∀ o, .created x o ∉ newer) (o : O) :
    (x, o) ∈ live (newer ++ older) ↔ .closed x ∉ newer ∧ (x, o) ∈ live older := by
  induction newer with
  | nil => simp
  | cons e newer ih =>
    have ih := ih fun o ho => hnew o (List.mem_cons_of_mem _ ho)
    cases e with
    | created h o' =>
      have hne : (x, o) ≠ (h, o') := by
        intro heq
        obtain ⟨rfl, rfl⟩ := Prod.mk.inj heq
        exact hnew o (List.mem_cons_self ..)
      rw [List.cons_append, live, List.mem_cons, or_iff_right hne, ih]
      simp
    | closed h =>
      rw [List.cons_append, live, List.mem_filter, ih, decide_eq_true_eq, List.mem_cons, not_or,
        ne_eq, Event.closed.injEq]
      tauto

/-- A handle is not returned again before all generations were. -/
theorem Consistent.created_once (h : Consistent t log free) {newer older : List (Event O)}
    (hlog : log = newer ++ .created x o :: older) (hwin : creations newer < 2 ^ 15 - 1) (o' : O) :
    .created x o' ∉ newer := by
  intro hmem
  obtain ⟨a, b, rfl⟩ := List.append_of_mem hmem
  have hold := (h.history _ x o older hlog).1
  have hnew := (h.history a x o' (b ++ .created x o :: older) (by rw [hlog]; simp)).1
  rw [creations_append] at hnew hwin
  simp only [creations] at hnew hwin
  omega

theorem Consistent.isValid_iff_live (h : Consistent t log free) (hx : Unaliased log x) :
    t.isValid x = true ↔ ∃ o, (x, o) ∈ live log := by
  rw [h.isValid_iff]
  rcases hx with hx | hx
  · rw [clearTop_eq_self hx]
  · refine ⟨fun ⟨o, ho⟩ => absurd ho (hx o), fun ⟨o, ho⟩ => ⟨o, ?_⟩⟩
    rwa [clearTop_eq_self (h.entry _ ho).2.2]

/-- A handle with bit 31 set is never live: an alias of a live one is valid all the same. -/
theorem Consistent.unaliased_iff (h : Consistent t log free) (x : Handle) :
    (t.isValid x = true ↔ ∃ o, (x, o) ∈ live log) ↔ Unaliased log x := by
  refine ⟨fun heq => ?_, h.isValid_iff_live⟩
  by_cases hlive : ∃ o, (x, o) ∈ live log
  · obtain ⟨o, ho⟩ := hlive
    exact Or.inl (h.entry _ ho).2.2
  · refine Or.inr fun o ho => hlive (heq.mp ((h.isValid_iff x).mpr ⟨o, ho⟩))

/-- The pseudo-handles have bit 31 set. -/
theorem ne_pseudo (hx : x.toNat < 2 ^ 31) : x ≠ currentThread ∧ x ≠ currentProcess := by
  constructor
  · rintro rfl
    exact absurd hx (by decide)
  · rintro rfl
    exact absurd hx (by decide)

theorem Consistent.getGeneric_eq (h : Consistent t log free) (ho : (x, o) ∈ live log)
    (thread process : O) : t.getGeneric thread process x = some o := by
  have hx := (h.entry _ ho).2.2
  have ho' : (clearTop x, o) ∈ live log := by rwa [clearTop_eq_self hx]
  obtain ⟨ht, hp⟩ := ne_pseudo hx
  unfold getGeneric
  rw [if_neg ht, if_neg hp, if_neg (by simpa using (h.isValid_iff x).mpr ⟨o, ho'⟩)]
  exact h.objects_of_isValid ho'

/-- In the window of a creation its handle is valid until it is closed. -/
theorem Consistent.window (h : Consistent t log free) {newer older : List (Event O)}
    (hlog : log = newer ++ .created x o :: older) (hwin : creations newer < 2 ^ 15 - 1) :
    (t.isValid x = true ↔ .closed x ∉ newer) ∧
      (t.isValid x = true → ∀ thread process, t.getGeneric thread process x = some o) := by
  have hx : Unaliased log x := Or.inl (h.history _ x o older hlog).2
  have hmem : ∀ o', (x, o') ∈ live log ↔
      .closed x ∉ newer ∧ (x, o') ∈ live (.created x o :: older) := by
    intro o'
    rw [hlog]
    exact mem_live_append (h.created_once hlog hwin) o'
  have hlive : t.isValid x = true ↔ .closed x ∉ newer := by
    rw [h.isValid_iff_live hx]
    exact ⟨fun ⟨o', ho'⟩ => ((hmem o').mp ho').1,
      fun hc => ⟨o, (hmem o).mpr ⟨hc, List.mem_cons_self ..⟩⟩⟩
  refine ⟨hlive, fun hv thread process => h.getGeneric_eq ?_ thread process⟩
  exact (hmem o).mpr ⟨hlive.mp hv, List.mem_cons_self ..⟩

/-- `Close` leaves the other live handles as they were. -/
theorem Consistent.close_others (h : Consistent t log free) (hx : Unaliased log x) {e : Handle × O}
    (he : e ∈ live log) (hne : e.1 ≠ x) (thread process : O) :
    (t.close x).2.isValid e.1 = true ∧
      (t.close x).2.getGeneric thread process e.1 = some e.2 := by
  cases hvalid : t.isValid x with
  | false =>
    rw [close_invalid hvalid]
    exact ⟨(h.isValid_iff_live (Or.inl (h.entry e he).2.2)).mpr ⟨e.2, he⟩,
      h.getGeneric_eq he thread process⟩
  | true =>
    obtain ⟨o, ho⟩ := (h.isValid_iff_live hx).mp hvalid
    obtain ⟨t', hclose, h'⟩ := h.close_live ho
    have he' : e ∈ live (.closed x :: log) := List.mem_filter.mpr ⟨he, decide_eq_true hne⟩
    rw [hclose]
    exact ⟨(h'.isValid_iff_live (Or.inl (h'.entry e he').2.2)).mpr ⟨e.2, he'⟩,
      h'.getGeneric_eq he' thread process⟩

/-- `Create` fails when all handles are live, and takes an empty slot otherwise. -/
theorem Consistent.create_cases (h : Consistent t log free) (object : O) :
    (t.create object = (.error Result.outOfHandles, t) ∧ (live log).length = maxCount) ∨
      ∃ x t', t.create object = (.ok x, t') ∧ t.objects (getSlot x) = none ∧
        (live log).length < maxCount := by
  have hlen := h.live_length
  cases free with
  | nil => exact Or.inl ⟨h.create_full object, by simpa using hlen⟩
  | cons s free =>
    obtain ⟨t', hcreate, hnone, -⟩ := h.create_free object
    refine Or.inr ⟨_, t', hcreate, ?_, ?_⟩
    · rwa [getSlot_packHandle (h.lt_of_free (List.mem_cons_self ..)) h.nextGeneration_lt.2]
    · simp only [List.length_cons] at hlen
      omega

/-! ## Runs -/

/-- A call that changes the table. -/
inductive Call (O : Type u)
  | create (object : O)
  | duplicate (thread process : O) (handle : Handle)
  | close (handle : Handle)

/-- The table and the log after a call. -/
def step (t : HandleTable O) (log : List (Event O)) : Call O → HandleTable O × List (Event O)
  | .create object =>
    match t.create object with
    | (.ok h, t') => (t', .created h object :: log)
    | (.error _, t') => (t', log)
  | .duplicate thread process handle =>
    match t.getGeneric thread process handle, t.duplicate thread process handle with
    | some object, (.ok h, t') => (t', .created h object :: log)
    | _, (_, t') => (t', log)
  | .close handle =>
    match t.close handle with
    | (result, t') => (t', if result.isSuccess then .closed handle :: log else log)

/-- The tables that a run reaches on a fresh one in which no `Close` is passed an alias of a
live handle. -/
inductive Reached : HandleTable O → List (Event O) → Prop
  | init : Reached init []
  | call {t : HandleTable O} {log : List (Event O)} {c : Call O} :
      Reached t log → (∀ handle, c = .close handle → Unaliased log handle) →
        Reached (step t log c).1 (step t log c).2

theorem Consistent.step_create (h : Consistent t log free) (object : O) :
    ∃ free', Consistent (step t log (.create object)).1 (step t log (.create object)).2 free' := by
  cases free with
  | nil =>
    refine ⟨[], ?_⟩
    unfold step
    simp only [h.create_full object]
    exact h
  | cons s free =>
    obtain ⟨t', hcreate, -, h'⟩ := h.create_free object
    refine ⟨free, ?_⟩
    unfold step
    simp only [hcreate]
    exact h'

/-- `Duplicate` of a handle is `Create` of its object. -/
theorem step_duplicate {thread process object : O} {handle : Handle}
    (hget : t.getGeneric thread process handle = some object) :
    step t log (.duplicate thread process handle) = step t log (.create object) := by
  unfold step
  simp only [hget, duplicate]
  rcases t.create object with ⟨result, t'⟩
  cases result <;> rfl

theorem Reached.consistent (h : Reached t log) : ∃ free, Consistent t log free := by
  induction h with
  | init => exact ⟨_, consistent_init⟩
  | @call t log c hrun hc ih =>
    obtain ⟨free, h⟩ := ih
    cases c with
    | create object => exact h.step_create object
    | duplicate thread process handle =>
      cases hget : t.getGeneric thread process handle with
      | none =>
        refine ⟨free, ?_⟩
        unfold step
        simp only [hget, duplicate]
        exact h
      | some object =>
        rw [step_duplicate hget]
        exact h.step_create object
    | close handle =>
      cases hvalid : t.isValid handle with
      | false =>
        refine ⟨free, ?_⟩
        unfold step
        simp only [Consistent.close_invalid hvalid]
        exact h
      | true =>
        obtain ⟨o, ho⟩ := (h.isValid_iff_live (hc handle rfl)).mp hvalid
        obtain ⟨t', hclose, h'⟩ := h.close_live ho
        refine ⟨getSlot handle :: free, ?_⟩
        unfold step
        simp only [hclose]
        exact h'

/-- A table that a run reaches says of a handle what the log says: exactly when bit 31 of
the handle is clear or the handle without it is not live, it is valid if and only if it is
live; in the window of a creation it is valid until it is closed, with the object of the
creation. Live handles differ, a `Close` leaves the others alone, and `Create` fails, with
the table as it was, exactly when `maxCount` handles are live, and takes an empty slot
otherwise. -/
theorem handles_of_run (h : Reached t log) :
    (∀ x, (t.isValid x = true ↔ ∃ o, (x, o) ∈ live log) ↔ Unaliased log x) ∧
    (∀ x o newer older, log = newer ++ .created x o :: older → creations newer < 2 ^ 15 - 1 →
      (t.isValid x = true ↔ .closed x ∉ newer) ∧
        (t.isValid x = true → ∀ thread process, t.getGeneric thread process x = some o)) ∧
    ((live log).map Prod.fst).Nodup ∧
    (∀ x, Unaliased log x → ∀ e ∈ live log, e.1 ≠ x → ∀ thread process,
      (t.close x).2.isValid e.1 = true ∧
        (t.close x).2.getGeneric thread process e.1 = some e.2) ∧
    ∀ object, (t.create object = (.error Result.outOfHandles, t) ∧ (live log).length = maxCount) ∨
      ∃ x t', t.create object = (.ok x, t') ∧ t.objects (getSlot x) = none ∧
        (live log).length < maxCount := by
  obtain ⟨free, hcons⟩ := h.consistent
  refine ⟨hcons.unaliased_iff, fun x o newer older hlog hwin => ?_, ?_, fun x hx e he hne => ?_,
    hcons.create_cases⟩
  · exact hcons.window hlog hwin
  · refine List.Nodup.of_map getSlot ?_
    rw [List.map_map]
    exact (List.nodup_append.mp hcons.nodup).2.1
  · exact hcons.close_others hx he hne

/-- The first handle of a fresh table, for the object `()`. -/
theorem handles_of_run_first :
    ∃ (t : HandleTable Unit) (log : List (Event Unit)), Reached t log ∧
      t.isValid 1 = true ∧ t.getGeneric () () 1 = some () := by
  have h : Reached (step init [] (.create ())).1 (step init [] (.create ())).2 :=
    Reached.call Reached.init (by simp)
  have hlog : (step init [] (.create ())).2 = [] ++ .created (1 : Handle) () :: [] := rfl
  obtain ⟨hvalid, hget⟩ := (handles_of_run h).2.1 1 () [] [] hlog (by decide)
  exact ⟨_, _, h, hvalid.mpr (by simp), hget (hvalid.mpr (by simp)) () ()⟩

/-- The first handle with bit 31 set is valid too, and nobody returned it. -/
theorem alias_isValid :
    ∃ (t : HandleTable Unit) (log : List (Event Unit)), Reached t log ∧
      (0x80000001 : Handle) ≠ currentThread ∧ (0x80000001 : Handle) ≠ currentProcess ∧
      (∀ o, Event.created (0x80000001 : Handle) o ∉ log) ∧ t.isValid 0x80000001 = true := by
  refine ⟨_, _, Reached.call (c := .create ()) Reached.init (by simp), by decide, by decide,
    fun o => ?_, by decide⟩
  show Event.created (0x80000001 : Handle) o ∉ [Event.created 1 ()]
  simp

end HandleTable

end GbaStation.Kernel
