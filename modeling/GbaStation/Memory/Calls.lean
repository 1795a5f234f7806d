import GbaStation.Memory.Refinement

/-!
# Runs of address-space calls

A run starts with `Reset` and makes calls of `MapBackingMemory`, `ChangeMemoryState`,
`UnmapRange`, `Reprotect` and `ReprotectRange` that return, each with a result that may be an
error. Beside the manager a run keeps a **reference map**, which gives every address the
attributes that the last successful call over it set.

- `vmaMap_invariant`: what holds in every state a run reaches.
-/

namespace GbaStation.Memory

open Kernel (Result)
open Segment (Tiles Separated Update EndsInAbsorbed DividesAt sweep settle tiles_append view_append
  tiles_cons tiles_singleton view_singleton Covers absorb separated_cons view)
open VMAPermission (readWrite read)
open Option (some.inj bind_eq_some_iff)

namespace VMManager

/-- The areas of a map in the order of their keys. -/
def areas (m : VMAMap) : List VirtualMemoryArea := m.map Prod.snd

@[simp] theorem areas_keyed (vs : List VirtualMemoryArea) : areas (keyed vs) = vs := by
  unfold areas keyed
  rw [List.map_map]
  exact List.map_id vs

/-- Every area is found under its own base. -/
def KeyedByBase (m : VMAMap) : Prop := ∀ e ∈ m, e.1 = e.2.base

theorem keyedByBase_keyed (vs : List VirtualMemoryArea) : KeyedByBase (keyed vs) := by
  intro e he
  obtain ⟨v, -, rfl⟩ := List.mem_map.mp he
  rfl

theorem KeyedByBase.eq_keyed {m : VMAMap} (h : KeyedByBase m) : m = keyed (areas m) := by
  unfold keyed areas
  rw [List.map_map, List.map_congr_left (g := id)]
  · simp
  · rintro ⟨k, v⟩ he
    have hk : k = v.base := h _ he
    rw [hk]
    rfl

/-! ## Calls -/

/-- A call of one of the public operations that change the map. -/
inductive Call
  | mapBackingMemory (target : Nat) (memory : MemoryRef) (size : Nat) (state : MemoryState)
  | changeMemoryState (target size : Nat) (expectedState : MemoryState)
      (expectedPerms : VMAPermission) (newState : MemoryState) (newPerms : VMAPermission)
  | unmapRange (target size : Nat)
  | reprotect (vmaHandle : Nat) (newPerms : VMAPermission)
  | reprotectRange (target size : Nat) (newPerms : VMAPermission)
deriving DecidableEq, Repr

variable {e size target : Nat} {done rest : List VirtualMemoryArea} {g : Nat → PageAttr → PageAttr}
  {newPerms : VMAPermission} {ref : Nat → PageAttr} {c : Call}

namespace Call

/-- The code a call returned and the manager it left behind. -/
def exec (s : VMManager) : Call → Option (Result × VMManager)
  | mapBackingMemory target memory size state => do
    match ← VMManager.mapBackingMemory target memory size state s with
    | (.error e, s') => some (e, s')
    | (.ok _, s') => some (Result.success, s')
  | changeMemoryState target size expectedState expectedPerms newState newPerms =>
    VMManager.changeMemoryState target size expectedState expectedPerms newState newPerms s
  | unmapRange target size => VMManager.unmapRange target size s
  | reprotect vmaHandle newPerms => do
    let (_, s') ← VMManager.reprotect vmaHandle newPerms s
    some (Result.success, s')
  | reprotectRange target size newPerms => VMManager.reprotectRange target size newPerms s

/-- The range of the call is not empty and inside the managed space. (One that is not
page-aligned fails an assertion.) -/
def InSpace : Call → Prop
  | mapBackingMemory target _ size _ | changeMemoryState target size _ _ _ _
  | unmapRange target size | reprotectRange target size _ =>
    0 < size ∧ target + size ≤ maxAddress
  | reprotect _ _ => True

instance : (c : Call) → Decidable c.InSpace
  | mapBackingMemory _ _ _ _ | changeMemoryState _ _ _ _ _ _ | unmapRange _ _
  | reprotectRange _ _ _ => inferInstanceAs (Decidable (_ ∧ _))
  | reprotect _ _ => inferInstanceAs (Decidable True)

/-- The words of a call that is `InSpace` fit in 32 bits. -/
theorem lt_word (h : 0 < size ∧ target + size ≤ maxAddress) : target < 2 ^ 32 ∧ size < 2 ^ 32 := by
  have hlim : maxAddress = 0x40000000 := rfl
  omega

/-- A reference map with the addresses of `[target, e)` rewritten by `g`. -/
def rewrite (target e : Nat) (g : Nat → PageAttr → PageAttr) (ref : Nat → PageAttr) :
    Nat → PageAttr :=
  fun a => if target ≤ a ∧ a < e then g a (ref a) else ref a

/-- What an address of a new mapping looks like. -/
def mapped (target : Nat) (memory : MemoryRef) (state : MemoryState) (a : Nat) (_ : PageAttr) :
    PageAttr where
  type := .backingMemory
  permissions := readWrite
  meminfoState := state
  pointer := some (memory.getPtr + (a - target))

/-- The reference map after a successful call in the state `s`. -/
def refer (s : VMManager) (ref : Nat → PageAttr) : Call → Nat → PageAttr
  | mapBackingMemory target memory size state =>
    rewrite target (target + size) (mapped target memory state) ref
  | changeMemoryState target size _ _ newState newPerms =>
    rewrite target (target + size) (fun _ => PageAttr.stateChanged newState newPerms) ref
  | unmapRange target size => rewrite target (target + size) (fun _ => PageAttr.unmapped) ref
  | reprotect vmaHandle newPerms =>
    match s.vmaMap.get? vmaHandle with
    | some vma =>
      rewrite vma.base (vma.base + vma.size) (fun _ => PageAttr.reprotected newPerms) ref
    | none => ref
  | reprotectRange target size newPerms =>
    rewrite target (target + size) (fun _ => PageAttr.reprotected newPerms) ref

/-- The call leaves no mergeable neighbours behind: its range does not end inside an area
that starts in the range and already is as the call would make it and as the area before
it. (The loops of `ChangeMemoryState` and `ReprotectRange` merge to the right once a turn:
the part of such an area that lies in the range is merged to the left, and the loop goes on
behind the other part.) -/
def KeepsMerged (s : VMManager) : Call → Prop
  | changeMemoryState target size _ _ newState newPerms =>
    ¬ EndsInAbsorbed (stateChanged newState newPerms) (areas s.vmaMap) target (target + size)
  | reprotectRange target size newPerms =>
    ¬ EndsInAbsorbed (reprotected newPerms) (areas s.vmaMap) target (target + size)
  | _ => True

end Call

/-! ## The effect of one call -/

/-- `vs'` is `vs` with the attributes of `[target, e)` rewritten by `g`; it stays separated
exactly when `keeps`. -/
structure Rewritten (vs vs' : List VirtualMemoryArea) (target e : Nat)
    (g : Nat → PageAttr → PageAttr) (keeps : Prop) : Prop where
  tiles : Tiles 0 vs' maxAddress
  view : ∀ a, view vs' a =
    if target ≤ a ∧ a < e then (view vs a).map (g a) else view vs a
  separated : Separated vs → (Separated vs' ↔ keeps)

variable {vs : List VirtualMemoryArea} {s s' : VMManager} {res : Result}

/-- The loop over a range that `CarveVMARange` has cut out. -/
theorem updateLoop_carved {upd : VirtualMemoryArea → VirtualMemoryArea} {f : PageAttr → PageAttr}
    (hu : Update upd f) {todo : List VirtualMemoryArea} (hc : Carved vs target e done todo rest) :
    updateLoop upd e ((keyed (done ++ (todo ++ rest))).length + 1) (some target)
        (keyed (done ++ (todo ++ rest))) = some (keyed (sweep upd done todo rest)) ∧
      Rewritten vs (sweep upd done todo rest) target e (fun _ => f)
        (¬ EndsInAbsorbed upd vs target e) := by
  obtain ⟨hd, ht, hr⟩ := hc.tiles
  obtain ⟨x, todo, rfl⟩ := List.exists_cons_of_ne_nil hc.todo_ne_nil
  have hx : x.base = target := ht.1
  have hfuel : (x :: todo).length < (keyed (done ++ (x :: todo ++ rest))).length + 1 := by
    simp only [keyed_length, List.length_append]
    omega
  have hrun := updateLoop_keyed hu done (x :: todo) rest hd ht hr hfuel
  simp only [List.cons_append, List.head?_cons, Option.map_some, hx] at hrun
  refine ⟨hrun, Segment.sweep_tiles hu _ _ _ hd ht hr, fun a => ?_, fun hs => ?_⟩
  · rw [Segment.view_sweep hu _ _ _ hd ht hr, hd.view_rewrite ht hr, view_append,
      view_append, hc.view]
  · obtain ⟨hsd, hst, hsr⟩ := hc.separated hs
    rw [← hc.absorbsCut_iff hu hs]
    refine ⟨fun h hcut => Segment.sweep_not_separated hu _ _ _ hst hcut h, fun h => ?_⟩
    exact Segment.sweep_separated _ _ _ hsd hst hsr h (by simp)

/-- One area rewritten in place and merged with its neighbours. -/
theorem rewritten_settle {x y : VirtualMemoryArea} (hd : Tiles 0 done target)
    (hy : Tiles target [y] e) (hr : Tiles e rest maxAddress) (hview : ∀ a, view vs a =
      (view done a).or ((view [x] a).or (view rest a)))
    (hx : Tiles target [x] e) (hattr : ∀ a, y.pageAttr a = g a (x.pageAttr a))
    (hsep : Separated vs → Separated done ∧ Separated rest) :
    Rewritten vs (settle done y rest) target e g True := by
  have hall : Tiles 0 (done ++ y :: rest) maxAddress :=
    tiles_append.mpr ⟨target, hd, tiles_cons.mpr ⟨e, hy, hr⟩⟩
  refine ⟨Segment.tiles_settle hall, fun a => ?_, fun hs => iff_true_intro ?_⟩
  · have hmap : view [y] a = (view [x] a).map (g a) := by
      obtain ⟨hxb, -, hxe⟩ := tiles_singleton.mp hx
      obtain ⟨hyb, -, hye⟩ := tiles_singleton.mp hy
      rw [view_singleton, view_singleton]
      have hcov : Covers y a ↔ Covers x a := by
        unfold Covers
        omega
      split_ifs with hya hxa hxa
      · exact congrArg some (hattr a)
      · exact absurd (hcov.mp hya) hxa
      · exact absurd (hcov.mpr hxa) hya
      · rfl
    rw [Segment.view_settle hall, view_append, ← List.singleton_append,
      view_append, hmap, hd.view_rewrite hx hr, view_append, view_append,
      hview]
  · obtain ⟨hsd, hsr⟩ := hsep hs
    exact Segment.separated_settle hsd hsr

/-- `MapBackingMemory` settles the new area where `CarveVMA` has cut it out. -/
theorem mapBackingMemory_carved (hl : s.isLocked = false) {memory : MemoryRef} {state : MemoryState}
    (hptr : memory.getPtr ≠ 0) {x : VirtualMemoryArea} (hd : Tiles 0 done target)
    (hx : Tiles target [x] (target + size)) (hr : Tiles (target + size) rest maxAddress)
    (hcarve : carveVMA target size s.vmaMap = some (.ok target, keyed (done ++ x :: rest))) :
    ∃ zs l, Segment.push done (absorb (backed memory state x) rest).1 = zs ++ [l] ∧
      VMManager.mapBackingMemory target memory size state s = some (.ok l.base,
        { s with
          vmaMap := keyed (zs ++ l :: (absorb (backed memory state x) rest).2) }) := by
  obtain rfl : x.base = target := hx.1
  have hsize : x.size = size := by
    have : x.base + x.size = x.base + size := hx.2.2
    omega
  have hall : Tiles 0 (done ++ x :: rest) maxAddress :=
    tiles_append.mpr ⟨x.base, hd, tiles_cons.mpr ⟨x.base + size, hx, hr⟩⟩
  have hy : Tiles x.base [backed memory state x] (x.base + size) := hx
  obtain ⟨zs, l, hpush, hmerge⟩ := mergeAdjacent_keyed
    (tiles_append.mpr ⟨x.base, hd, tiles_cons.mpr ⟨x.base + size, hy, hr⟩⟩)
  refine ⟨zs, l, hpush, ?_⟩
  have hb : (backed memory state x).base = x.base := rfl
  rw [hb, ← set_keyed hall hb] at hmerge
  unfold VMManager.mapBackingMemory
  rw [if_neg (by simp [hl]), if_neg hptr, hcarve]
  simp only [Option.bind_eq_bind, Option.bind_some, get?_keyed hall]
  rw [if_neg (not_not.mpr hsize), hmerge]
  rfl

theorem mapBackingMemory_effect (h : Tiles 0 vs maxAddress) (hm : s.vmaMap = keyed vs)
    {memory : MemoryRef} {state : MemoryState} (hsz : size < 2 ^ 32) {r : Except Result Nat}
    (he : VMManager.mapBackingMemory target memory size state s = some (r, s')) :
    (∃ e : Result, e.isSuccess = false ∧ r = .error e ∧ s' = s) ∨
      (∃ k, r = .ok k) ∧ s'.isLocked = s.isLocked ∧ 0 < size ∧ target + size ≤ maxAddress ∧
        ∃ vs', s'.vmaMap = keyed vs' ∧
          Rewritten vs vs' target (target + size) (Call.mapped target memory state) True := by
  have hcall := he
  unfold VMManager.mapBackingMemory at he
  split at he
  · cases he
  next hl =>
  split at he
  · cases he
  next hptr =>
  obtain ⟨⟨r', m⟩, hcarve, he⟩ := bind_eq_some_iff.mp he
  rw [hm] at hcarve
  rcases carveVMA_keyed h hsz hcarve with
    ⟨e, hes, rfl, rfl⟩ | ⟨rfl, hpos, hle, ls, done, x, rest, hend, hstart, -, rfl⟩
  · obtain ⟨rfl, rfl⟩ := returned he
    exact Or.inl ⟨e, hes, rfl, by rw [← hm]⟩
  · obtain ⟨hd, hx⟩ := hstart.tiles
    have hr := hend.tiles.2
    obtain rfl : x.base = target := hx.1
    obtain ⟨zs, l, hpush, hmap⟩ :=
      mapBackingMemory_carved (by simpa using hl) hptr hd hx hr (hm ▸ hcarve)
    rw [hcall] at hmap
    obtain ⟨rfl, rfl⟩ := returned hmap
    have hsettle : zs ++ l :: (absorb (backed memory state x) rest).2 =
        settle done (backed memory state x) rest := by
      rw [settle, hpush, List.append_assoc, List.singleton_append]
    refine Or.inr ⟨⟨_, rfl⟩, rfl, hpos, hle, _, congrArg keyed hsettle,
      rewritten_settle hd hx hr (fun a => ?_) hx (fun a => rfl) fun hs => ?_⟩
    · rw [← hend.view, ← hstart.view, Option.or_assoc]
    · obtain ⟨hsl, hsr⟩ := hend.separated hs
      exact ⟨(hstart.separated hsl).1, hsr⟩

/-- A manager on which all operations behave: not locked, its areas keyed by their bases and
tiling the space. -/
structure Intact (s : VMManager) : Prop where
  isLocked : s.isLocked = false
  keyedByBase : KeyedByBase s.vmaMap
  tiles : Tiles 0 (areas s.vmaMap) maxAddress

/-- A range of an intact manager is rewritten by `g`; the areas stay separated exactly when
`keeps`. -/
structure RangeRewritten (s s' : VMManager) (target size : Nat) (g : PageAttr → PageAttr)
    (keeps : Prop) : Prop where
  intact : Intact s'
  pos : 0 < size
  inSpace : target + size ≤ maxAddress
  view : ∀ a, view (areas s'.vmaMap) a = if target ≤ a ∧ a < target + size
    then (view (areas s.vmaMap) a).map g else view (areas s.vmaMap) a
  separated : Separated (areas s.vmaMap) → (Separated (areas s'.vmaMap) ↔ keeps)

/-- An operation on a range has failed and done nothing, or has rewritten the range. -/
def RangeOutcome (s s' : VMManager) (res : Result) (target size : Nat) (g : PageAttr → PageAttr)
    (keeps : Prop) : Prop :=
  (res.isSuccess = false ∧ s' = s) ∨
    res = Result.success ∧ RangeRewritten s s' target size g keeps

section Ranges

variable {m : VMAMap} {upd : VirtualMemoryArea → VirtualMemoryArea} {f : PageAttr → PageAttr}

/-- The areas of a range that was carved out are rewritten one by one. -/
theorem Carved.rangeRewritten (h : Intact s) {done todo rest : List VirtualMemoryArea}
    (hc : Carved (areas s.vmaMap) target (target + size) done todo rest) (hu : Update upd f)
    (hpos : 0 < size) (hle : target + size ≤ maxAddress)
    (hloop : updateLoop upd (add32 target size) ((keyed (done ++ (todo ++ rest))).length + 1)
      (some target) (keyed (done ++ (todo ++ rest))) = some m) :
    RangeRewritten s { s with vmaMap := m } target size f
      (¬ EndsInAbsorbed upd (areas s.vmaMap) target (target + size)) := by
  have hlim : maxAddress = 0x40000000 := rfl
  rw [add32_eq (by omega)] at hloop
  obtain ⟨hrun, hrew⟩ := updateLoop_carved hu hc
  obtain rfl := some.inj (hrun.symm.trans hloop)
  refine ⟨⟨h.isLocked, keyedByBase_keyed _, ?_⟩, hpos, hle, ?_, ?_⟩
  all_goals rw [areas_keyed]
  exacts [hrew.tiles, hrew.view, hrew.separated]

/-- The range is carved out and rewritten. -/
theorem carvedLoop_effect (h : Intact s) (htg : target < 2 ^ 32) (hsz : size < 2 ^ 32)
    (hu : Update upd f)
    (he : (carveVMARange target size s.vmaMap >>= fun
      | (.error e, m) => some (e, { s with vmaMap := m })
      | (.ok k, m) =>
        updateLoop upd (add32 target size) (m.length + 1) (some k) m >>= fun m =>
          some (Result.success, { s with vmaMap := m })) = some (res, s')) :
    RangeOutcome s s' res target size f
      (¬ EndsInAbsorbed upd (areas s.vmaMap) target (target + size)) := by
  obtain ⟨⟨r', m⟩, hcarve, he⟩ := bind_eq_some_iff.mp he
  rw [h.keyedByBase.eq_keyed] at hcarve
  obtain ⟨hpos, hle⟩ := carveVMARange_inSpace htg hsz hcarve
  rcases carveVMARange_keyed h.tiles htg hsz hcarve with
    ⟨rfl, rfl⟩ | ⟨rfl, -, done, todo, rest, hc, rfl⟩
  · obtain ⟨rfl, rfl⟩ := returned he
    exact Or.inl ⟨rfl, by rw [← h.keyedByBase.eq_keyed]⟩
  · obtain ⟨m, hloop, he⟩ := bind_eq_some_iff.mp he
    obtain ⟨rfl, rfl⟩ := returned he
    exact Or.inr ⟨rfl, hc.rangeRewritten h hu hpos hle hloop⟩

theorem changeMemoryState_effect (h : Intact s) {expectedState newState : MemoryState}
    {expectedPerms : VMAPermission} (htg : target < 2 ^ 32) (hsz : size < 2 ^ 32)
    (he : changeMemoryState target size expectedState expectedPerms newState newPerms s =
      some (res, s')) :
    RangeOutcome s s' res target size (.stateChanged newState newPerms)
      (¬ EndsInAbsorbed (stateChanged newState newPerms) (areas s.vmaMap) target
        (target + size)) := by
  unfold changeMemoryState at he
  rw [if_neg (by simp [h.isLocked])] at he
  split at he
  · obtain ⟨rfl, rfl⟩ := returned he
    exact Or.inl ⟨rfl, rfl⟩
  obtain ⟨entries, -, he⟩ := bind_eq_some_iff.mp he
  split at he
  · obtain ⟨rfl, rfl⟩ := returned he
    exact Or.inl ⟨rfl, rfl⟩
  exact carvedLoop_effect h htg hsz (stateChanged_update newState newPerms) he

/-- A range without free areas never ends in one that `Unmap` absorbs. -/
theorem not_endsInAbsorbed_unmapped
    (hfree : ∀ w ∈ vs, target < w.base + w.size → w.base < e → w.type ≠ .free) :
    ¬ EndsInAbsorbed unmapped vs target e := by
  rintro ⟨pre, w, x, post, rfl, hx, hxe, -, -, -, ht, -⟩
  exact hfree x (by simp) (Nat.lt_of_lt_of_le hx (Nat.le_add_right _ _)) hxe ht.symm

theorem unmapRange_effect (h : Intact s) (htg : target < 2 ^ 32) (hsz : size < 2 ^ 32)
    (he : unmapRange target size s = some (res, s')) :
    RangeOutcome s s' res target size .unmapped True ∧
      (res.isSuccess = true → ∀ w ∈ areas s.vmaMap, target < w.base + w.size →
        w.base < target + size → w.type ≠ .free) := by
  unfold unmapRange at he
  split at he
  · cases he
  obtain ⟨⟨r', m⟩, hcarve, he⟩ := bind_eq_some_iff.mp he
  rw [h.keyedByBase.eq_keyed] at hcarve
  obtain ⟨hpos, hle⟩ := carveVMARange_inSpace htg hsz hcarve
  rcases carveVMARange_keyed h.tiles htg hsz hcarve with
    ⟨rfl, rfl⟩ | ⟨rfl, hfree, done, todo, rest, hc, rfl⟩
  · obtain ⟨rfl, rfl⟩ := returned he
    exact ⟨Or.inl ⟨rfl, by rw [← h.keyedByBase.eq_keyed]⟩, nofun⟩
  · obtain ⟨m, hloop, he⟩ := bind_eq_some_iff.mp he
    obtain ⟨k, -, he⟩ := bind_eq_some_iff.mp he
    obtain ⟨vma, -, he⟩ := bind_eq_some_iff.mp he
    split at he
    · cases he
    obtain ⟨rfl, rfl⟩ := returned he
    have hrew := hc.rangeRewritten h unmapped_update hpos hle hloop
    refine ⟨Or.inr ⟨rfl, { hrew with separated := fun hs => ?_ }⟩, fun _ => hfree⟩
    rw [hrew.separated hs]
    exact iff_true_intro (not_endsInAbsorbed_unmapped hfree)

theorem reprotectRange_effect (h : Intact s) (htg : target < 2 ^ 32) (hsz : size < 2 ^ 32)
    (he : reprotectRange target size newPerms s = some (res, s')) :
    RangeOutcome s s' res target size (.reprotected newPerms)
      (¬ EndsInAbsorbed (reprotected newPerms) (areas s.vmaMap) target (target + size)) := by
  unfold reprotectRange at he
  split at he
  · cases he
  exact carvedLoop_effect h htg hsz (reprotected_update newPerms) he

end Ranges

/-- The areas at the keys of a map. -/
theorem exists_of_get? {k : Nat} {v : VirtualMemoryArea}
    (hget : OrdMap.get? (keyed vs) k = some v) :
    k = v.base ∧ ∃ xs ys, vs = xs ++ v :: ys := by
  obtain ⟨⟨k', v'⟩, hfind, rfl⟩ := Option.map_eq_some_iff.mp hget
  have hk : k' = k := by simpa using List.find?_some hfind
  obtain ⟨w, hw, heq⟩ := List.mem_map.mp (List.mem_of_find?_eq_some hfind)
  obtain ⟨hb, rfl⟩ := Prod.mk.inj heq
  exact ⟨hk ▸ hb.symm, List.append_of_mem hw⟩

theorem reprotect_effect (h : Tiles 0 vs maxAddress) (hm : s.vmaMap = keyed vs) {k k' : Nat}
    (he : VMManager.reprotect k newPerms s = some (k', s')) :
    s'.isLocked = s.isLocked ∧ ∃ v vs', s.vmaMap.get? k = some v ∧ s'.vmaMap = keyed vs' ∧
      Rewritten vs vs' v.base (v.base + v.size) (fun _ => PageAttr.reprotected newPerms) True := by
  unfold VMManager.reprotect at he
  split at he
  · cases he
  obtain ⟨⟨k₁, m⟩, hupd, he⟩ := bind_eq_some_iff.mp he
  obtain ⟨rfl, rfl⟩ := returned he
  rw [hm] at hupd ⊢
  obtain ⟨v, hget, -⟩ := bind_eq_some_iff.mp hupd
  obtain ⟨rfl, xs, ys, rfl⟩ := exists_of_get? hget
  have hu := reprotected_update newPerms
  obtain ⟨zs, l, hpush, hupd'⟩ := updateVMA_keyed hu h
  rw [hupd] at hupd'
  obtain ⟨rfl, rfl⟩ := returned hupd'
  obtain ⟨m, hxs, hvs⟩ := tiles_append.mp h
  obtain ⟨m', hv, hys⟩ := tiles_cons.mp hvs
  obtain rfl : v.base = m := hv.1
  obtain rfl : v.base + v.size = m' := hv.2.2
  have hset : zs ++ l :: (absorb (reprotected newPerms v) ys).2 =
      settle xs (reprotected newPerms v) ys := by
    rw [settle, hpush, List.append_assoc, List.singleton_append]
  refine ⟨rfl, v, settle xs (reprotected newPerms v) ys, hget, by rw [hset], ?_⟩
  refine rewritten_settle hxs (hu.tiles_upd hv) hys (fun a => ?_) hv (fun a => rfl) fun hs => ?_
  · rw [view_append, ← List.singleton_append, view_append]
  · obtain ⟨hsx, hsv, -⟩ := Segment.separated_append.mp hs
    exact ⟨hsx, (separated_cons.mp hsv).2⟩

/-- The reference map follows a rewriting of the areas. -/
theorem Call.rewrite_agrees {vs' : List VirtualMemoryArea}
    (hview : ∀ a, view vs' a =
      if target ≤ a ∧ a < e then (view vs a).map (g a) else view vs a)
    (hag : ∀ a < maxAddress, view vs a = some (ref a)) :
    ∀ a < maxAddress, view vs' a = some (Call.rewrite target e g ref a) := by
  intro a ha
  rw [hview, hag a ha]
  unfold Call.rewrite
  split_ifs <;> rfl

/-- What one call that returns does to a map that tiles the managed space. -/
structure Effect (s : VMManager) (c : Call) (res : Result) (s' : VMManager) : Prop where
  isLocked : s'.isLocked = false
  keyedByBase : KeyedByBase s'.vmaMap
  tiles : Tiles 0 (areas s'.vmaMap) maxAddress
  /-- The call did what it says to the range, or failed and did nothing. -/
  outcome : (res.isSuccess = true ∧
      (∀ ref : Nat → PageAttr,
        (∀ a < maxAddress, view (areas s.vmaMap) a = some (ref a)) →
        ∀ a < maxAddress, view (areas s'.vmaMap) a = some (c.refer s ref a)) ∧
      (Separated (areas s.vmaMap) → (Separated (areas s'.vmaMap) ↔ c.KeepsMerged s))) ∨
    (res.isSuccess = false ∧ s' = s)

theorem effect_of_error (hk : KeyedByBase s.vmaMap) (ht : Tiles 0 (areas s.vmaMap) maxAddress)
    (hl : s.isLocked = false) (hres : res.isSuccess = false) : Effect s c res s :=
  ⟨hl, hk, ht, Or.inr ⟨hres, rfl⟩⟩

theorem Rewritten.effect {vs' : List VirtualMemoryArea} (hm : s.vmaMap = keyed vs)
    (hm' : s'.vmaMap = keyed vs') (hl : s'.isLocked = false)
    (h : Rewritten vs vs' target e g (c.KeepsMerged s))
    (hc : ∀ ref, c.refer s ref = Call.rewrite target e g ref) : Effect s c Result.success s' where
  isLocked := hl
  keyedByBase := hm' ▸ keyedByBase_keyed vs'
  tiles := by
    rw [hm', areas_keyed]
    exact h.tiles
  outcome := by
    rw [hm, hm', areas_keyed, areas_keyed]
    refine Or.inl ⟨rfl, fun ref hag => ?_, h.separated⟩
    rw [hc]
    exact Call.rewrite_agrees h.view hag

theorem RangeOutcome.effect {f : PageAttr → PageAttr} (h : Intact s)
    (ho : RangeOutcome s s' res target size f (c.KeepsMerged s))
    (hc : ∀ ref, c.refer s ref = Call.rewrite target (target + size) (fun _ => f) ref) :
    Effect s c res s' := by
  rcases ho with ⟨hres, rfl⟩ | ⟨rfl, hrew⟩
  · exact effect_of_error h.keyedByBase h.tiles h.isLocked hres
  · refine ⟨hrew.intact.isLocked, hrew.intact.keyedByBase, hrew.intact.tiles,
      Or.inl ⟨rfl, fun ref hag => ?_, hrew.separated⟩⟩
    rw [hc]
    exact Call.rewrite_agrees hrew.view hag

theorem exec_effect (hk : KeyedByBase s.vmaMap) (ht : Tiles 0 (areas s.vmaMap) maxAddress)
    (hl : s.isLocked = false) (hc : c.InSpace) (he : c.exec s = some (res, s')) :
    Effect s c res s' := by
  have hm := hk.eq_keyed
  have h : Intact s := ⟨hl, hk, ht⟩
  cases c with
  | mapBackingMemory target memory size state =>
    obtain ⟨⟨r, s₁⟩, hcall, hres⟩ := bind_eq_some_iff.mp he
    rcases mapBackingMemory_effect ht hm (Call.lt_word hc).2 hcall with
      ⟨e, hfail, rfl, rfl⟩ | ⟨⟨k, rfl⟩, hl', -, -, vs', hm', hrew⟩
    · obtain ⟨rfl, rfl⟩ := returned hres
      exact effect_of_error hk ht hl hfail
    · obtain ⟨rfl, rfl⟩ := returned hres
      exact Rewritten.effect hm hm' (hl'.trans hl) hrew fun _ => rfl
  | changeMemoryState target size expectedState expectedPerms newState newPerms =>
    exact (changeMemoryState_effect h (Call.lt_word hc).1 (Call.lt_word hc).2 he).effect h fun _ => rfl
  | unmapRange target size =>
    exact (unmapRange_effect h (Call.lt_word hc).1 (Call.lt_word hc).2 he).1.effect h fun _ => rfl
  | reprotect k newPerms =>
    obtain ⟨⟨k', s₁⟩, hcall, he⟩ := bind_eq_some_iff.mp he
    obtain ⟨rfl, rfl⟩ := returned he
    obtain ⟨hl', v, vs', hget, hm', hrew⟩ := reprotect_effect ht hm hcall
    refine Rewritten.effect hm hm' (hl'.trans hl) hrew fun ref => ?_
    simp only [Call.refer, hget]
  | reprotectRange target size newPerms =>
    exact (reprotectRange_effect h (Call.lt_word hc).1 (Call.lt_word hc).2 he).effect h fun _ => rfl

/-! ## Runs -/

/-- The states a run reaches in which every call meets `Admits`, each with the reference
map of the calls made so far. -/
inductive Reached (Admits : Call → VMManager → Prop) : VMManager → (Nat → PageAttr) → Prop
  | reset {s₀ s : VMManager} : s₀.reset = some s → Reached Admits s fun _ => {}
  | call {s s' : VMManager} {ref : Nat → PageAttr} {c : Call} {res : Result} :
      Reached Admits s ref → c.InSpace → Admits c s → c.exec s = some (res, s') →
        Reached Admits s' (if res.isSuccess then c.refer s ref else ref)

/-- What a state must satisfy whatever the calls were. -/
structure Tiled (s : VMManager) (ref : Nat → PageAttr) : Prop where
  isLocked : s.isLocked = false
  keyedByBase : KeyedByBase s.vmaMap
  tiles : Tiles 0 (areas s.vmaMap) maxAddress
  agrees : ∀ a < maxAddress, view (areas s.vmaMap) a = some (ref a)

/-- `Reset` leaves one free area. -/
theorem reset_vmaMap {s₀ : VMManager} (h : s₀.reset = some s) :
    s.isLocked = false ∧ s.vmaMap = initialMap := by
  unfold reset at h
  split at h
  · cases h
  · next hl =>
    obtain rfl := some.inj h
    exact ⟨by simpa using hl, rfl⟩

theorem tiled_reset {s₀ : VMManager} (h : s₀.reset = some s) : Tiled s fun _ => {} := by
  obtain ⟨hl, hm⟩ := reset_vmaMap h
  refine ⟨hl, ?_, ?_, fun a ha => ?_⟩
  · rw [hm]
    simp [KeyedByBase, initialMap]
  · rw [hm]
    exact ⟨rfl, by decide, rfl⟩
  · rw [hm]
    have hcov : Covers ({ size := maxAddress } : VirtualMemoryArea) a :=
      ⟨Nat.zero_le a, by show a < 0 + maxAddress; omega⟩
    show view [({ size := maxAddress } : VirtualMemoryArea)] a = _
    rw [view_singleton, if_pos hcov]
    rfl

theorem tiled_call (h : Tiled s ref) (hc : c.InSpace) (he : c.exec s = some (res, s')) :
    Tiled s' (if res.isSuccess then c.refer s ref else ref) := by
  have heff := exec_effect h.keyedByBase h.tiles h.isLocked hc he
  refine ⟨heff.isLocked, heff.keyedByBase, heff.tiles, ?_⟩
  rcases heff.outcome with ⟨hres, hview, -⟩ | ⟨hres, rfl⟩
  · rw [if_pos hres]
    exact hview ref h.agrees
  · rw [hres, if_neg (by simp)]
    exact h.agrees

theorem Reached.tiled {Admits : Call → VMManager → Prop} (h : Reached Admits s ref) :
    Tiled s ref := by
  induction h with
  | reset h => exact tiled_reset h
  | call _ hc _ he ih => exact tiled_call ih hc he

theorem Reached.separated (h : Reached (fun c s => c.KeepsMerged s) s ref) :
    Separated (areas s.vmaMap) := by
  induction h with
  | reset h =>
    rw [(reset_vmaMap h).2]
    exact List.isChain_singleton _
  | call hrun hc hkeeps he ih =>
    have ht := hrun.tiled
    rcases (exec_effect ht.keyedByBase ht.tiles ht.isLocked hc he).outcome with
      ⟨-, -, hsep⟩ | ⟨-, rfl⟩
    · exact (hsep ih).mpr hkeeps
    · exact ih

/-- In every state a run reaches, `vma_map` is keyed by the areas' bases, tiles the managed
space and agrees with the reference map. As long as every call `KeepsMerged`, no two
neighbours can be merged; a successful call that does not leaves two that can. -/
theorem vmaMap_invariant (s : VMManager) (ref : Nat → PageAttr) :
    (∀ Admits : Call → VMManager → Prop, Reached Admits s ref →
      KeyedByBase s.vmaMap ∧ Tiles 0 (areas s.vmaMap) maxAddress ∧
        ∀ a < maxAddress, view (areas s.vmaMap) a = some (ref a)) ∧
    (Reached (fun c s => c.KeepsMerged s) s ref →
      Separated (areas s.vmaMap) ∧
        ∀ (s' : VMManager) (c : Call) (res : Result), c.InSpace → c.exec s = some (res, s') →
          (Separated (areas s'.vmaMap) ↔ (res.isSuccess = true → c.KeepsMerged s))) := by
  refine ⟨fun _ h => ?_, fun h => ⟨h.separated, fun s' c res hc he => ?_⟩⟩
  · have ht := h.tiled
    exact ⟨ht.keyedByBase, ht.tiles, ht.agrees⟩
  · have ht := h.tiled
    rcases (exec_effect ht.keyedByBase ht.tiles ht.isLocked hc he).outcome with
      ⟨hres, -, hsep⟩ | ⟨hres, rfl⟩
    · rw [hsep h.separated]
      simp [hres]
    · simp [hres, h.separated]

section Example

/-- A host allocation of eight pages. -/
def exampleMem : BackingMem := ⟨0x100000, 0x8000⟩

/-- A private area backed by `exampleMem` from `offset` on. -/
def exampleArea (base size : Nat) (permissions : VMAPermission) (offset : Nat) :
    VirtualMemoryArea :=
  { base, size, type := .backingMemory, permissions, meminfoState := .privateMemory,
    backingMemory := ⟨some exampleMem, offset⟩ }

/-- Three pages mapped at `0x1000`. -/
def exampleMapped : VMManager where
  vmaMap := keyed [{ size := 0x1000 }, exampleArea 0x1000 0x3000 readWrite 0,
    { base := 0x4000, size := maxAddress - 0x4000 }]

/-- The first of them read-only. -/
def exampleReprotected : VMManager where
  vmaMap := keyed [{ size := 0x1000 }, exampleArea 0x1000 0x1000 read 0,
    exampleArea 0x2000 0x2000 readWrite 0x1000,
    { base := 0x4000, size := maxAddress - 0x4000 }]

/-- The first two writable again, but not merged with the third. -/
def exampleUnmerged : VMManager where
  vmaMap := keyed [{ size := 0x1000 }, exampleArea 0x1000 0x2000 readWrite 0,
    exampleArea 0x3000 0x1000 readWrite 0x2000,
    { base := 0x4000, size := maxAddress - 0x4000 }]

theorem exampleMapped_reached (Admits : Call → VMManager → Prop)
    (h : ∀ memory state s, Admits (.mapBackingMemory 0x1000 memory 0x3000 state) s) :
    ∃ ref, Reached Admits exampleMapped ref := by
  have hcall : (Call.mapBackingMemory 0x1000 ⟨some exampleMem, 0⟩ 0x3000 .privateMemory).exec
      { vmaMap := initialMap } = some (Result.success, exampleMapped) := by decide +kernel
  have h₀ : Reached Admits { vmaMap := initialMap } fun _ => {} :=
    .reset (show reset { vmaMap := [] } = _ from rfl)
  have hin : (Call.mapBackingMemory 0x1000 ⟨some exampleMem, 0⟩ 0x3000 .privateMemory).InSpace :=
    by decide
  exact ⟨_, h₀.call hin (h _ _ _) hcall⟩

/-- No area goes from inside of the range to behind it. -/
theorem keepsMerged_reprotectRange {s : VMManager} {target size : Nat} {newPerms : VMAPermission}
    (h : ∀ v ∈ areas s.vmaMap, ¬(target < v.base ∧ v.base < target + size ∧
      target + size < v.base + v.size)) : (Call.reprotectRange target size newPerms).KeepsMerged s := by
  rintro ⟨pre, w, x, post, hareas, hlo, hhi, hend, -⟩
  exact h x (by simp [hareas]) ⟨hlo, hhi, hend⟩

/-- The invariant at work: a page is made read-only, and writable again with all that is behind it. -/
theorem vmaMap_invariant_reprotected :
    KeyedByBase exampleReprotected.vmaMap ∧ Separated (areas exampleReprotected.vmaMap) ∧
      ∃ s, (Call.reprotectRange 0x1000 0x3000 readWrite).exec exampleReprotected =
        some (Result.success, s) ∧ Separated (areas s.vmaMap) := by
  obtain ⟨ref, h⟩ := exampleMapped_reached (fun c s => c.KeepsMerged s) fun _ _ _ => trivial
  have hcall : (Call.reprotectRange 0x1000 0x1000 read).exec exampleMapped =
      some (Result.success, exampleReprotected) := by decide +kernel
  have hcall' : (Call.reprotectRange 0x1000 0x3000 readWrite).exec exampleReprotected =
      some (Result.success, exampleMapped) := by decide +kernel
  obtain ⟨hkeyed, hmerged⟩ := vmaMap_invariant exampleReprotected _
  have h := h.call (by decide) (keepsMerged_reprotectRange (by decide)) hcall
  obtain ⟨hseparated, hstep⟩ := hmerged h
  exact ⟨(hkeyed _ h).1, hseparated, _, hcall',
    (hstep _ _ _ (by decide) hcall').mpr fun _ => keepsMerged_reprotectRange (by decide)⟩

/-- `ReprotectRange` over the read-only page and the first of the two behind it, which are
as the range will be: that one is merged to the left, and the last page with neither. -/
theorem reprotectRange_leaves_mergeable :
    ∃ s ref, Reached (fun _ _ => True) s ref ∧ ¬ Separated (areas s.vmaMap) := by
  obtain ⟨ref, h₁⟩ := exampleMapped_reached (fun _ _ => True) fun _ _ _ => trivial
  have hcall₂ : (Call.reprotectRange 0x1000 0x1000 read).exec exampleMapped =
      some (Result.success, exampleReprotected) := by decide +kernel
  have hcall₃ : (Call.reprotectRange 0x1000 0x2000 readWrite).exec
      exampleReprotected = some (Result.success, exampleUnmerged) := by decide +kernel
  have hin₂ : (Call.reprotectRange 0x1000 0x1000 read).InSpace := by decide
  have hin₃ : (Call.reprotectRange 0x1000 0x2000 readWrite).InSpace := by decide
  refine ⟨exampleUnmerged, _, (h₁.call hin₂ trivial hcall₂).call hin₃ trivial hcall₃, fun hs => ?_⟩
  have hpair := (separated_cons.mp (separated_cons.mp hs).2).1
    (exampleArea 0x3000 0x1000 readWrite 0x2000) rfl
  exact hpair ⟨rfl, rfl, rfl, fun _ => rfl⟩

end Example

end VMManager

end GbaStation.Memory
