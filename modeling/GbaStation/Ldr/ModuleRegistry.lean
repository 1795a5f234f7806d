import GbaStation.Common.IntrusiveList
import GbaStation.Ldr.RoService

/-!
# The two lists of loaded modules

The chain of the auto-link modules starts at the CRS's `NextCRO` and that of the others at its
`PreviousCRO`. `Chained` says that they are two intrusive lists of the loaded modules; `Register`
and `Unregister` have one lemma each.

- A module owns the pages that `Fix` left of it. `Regions` keeps the pages of the modules apart, so
  that unmapping one leaves the headers of the others.
- Nothing in the code keeps a relocation, or the end of a failed load, from the lists. `Regular`
  asks for it.
-/

namespace GbaStation.Ldr

open GbaStation.IntrusiveList PagedMemory

variable {m m' : PagedMemory} {crs a b v : Nat}

/-! ## Header fields -/

/-- An address that a module can have, with its header mapped. -/
structure HasHeader (m : PagedMemory) (a : Nat) : Prop where
  aligned : a % pageSize = 0
  mapped : m.mapped (a / pageSize) = true
  lt : a < 2 ^ 32

theorem HasHeader.of_mapped (h : HasHeader m a) (hm : m'.mapped = m.mapped) : HasHeader m' a :=
  ⟨h.aligned, hm ▸ h.mapped, h.lt⟩

theorem HeaderField.index_le (f : HeaderField) : f.index ≤ 6 := by
  cases f <;> decide

theorem HeaderField.index_inj {f g : HeaderField} (h : f.index = g.index) : f = g := by
  cases f <;> cases g <;> first | rfl | cases h

/-- A header field is read back, and no other one changes. -/
theorem getField_setField (ha : HasHeader m a) (hb : b % pageSize = 0) (f g : HeaderField)
    (hv : v < 2 ^ 32) :
    getField (setField m a f v) b g = if a = b ∧ f = g then v else getField m b g := by
  have hal := ha.aligned
  have hf := f.index_le
  have hg := g.index_le
  unfold getField setField
  by_cases h : a = b ∧ f = g
  · obtain ⟨rfl, rfl⟩ := h
    have hpage : field a f / pageSize = a / pageSize := by
      unfold field croHashSize pageSize at *
      omega
    rw [if_pos ⟨rfl, rfl⟩, read32_write32_self, Nat.mod_eq_of_lt hv]
    · rw [hpage]
      exact ha.mapped
    · unfold field croHashSize pageSize at *
      omega
  · rw [if_neg h, read32_write32_of_ne]
    unfold field croHashSize pageSize at *
    by_cases hab : a = b
    · have hfg : f.index ≠ g.index := fun hidx => h ⟨hab, HeaderField.index_inj hidx⟩
      omega
    · omega

theorem getField_lt (f : HeaderField) : getField m a f < 2 ^ 32 := read32_lt

@[simp] theorem mapped_setField (f : HeaderField) : (setField m a f v).mapped = m.mapped :=
  mapped_write32

@[simp] theorem mapped_setNextModule : (setNextModule m a v).mapped = m.mapped := mapped_write32

@[simp] theorem mapped_setPreviousModule : (setPreviousModule m a v).mapped = m.mapped :=
  mapped_write32

theorem nextModule_setNextModule (ha : HasHeader m a) (hb : b % pageSize = 0) (hv : v < 2 ^ 32) :
    nextModule (setNextModule m a v) b = if a = b then v else nextModule m b := by
  have := getField_setField ha hb .nextCRO .nextCRO hv
  simpa [nextModule, previousModule, setNextModule, setPreviousModule] using this

theorem nextModule_setPreviousModule (ha : HasHeader m a) (hb : b % pageSize = 0)
    (hv : v < 2 ^ 32) : nextModule (setPreviousModule m a v) b = nextModule m b := by
  have := getField_setField ha hb .previousCRO .nextCRO hv
  simpa [nextModule, previousModule, setNextModule, setPreviousModule] using this

theorem previousModule_setNextModule (ha : HasHeader m a) (hb : b % pageSize = 0)
    (hv : v < 2 ^ 32) : previousModule (setNextModule m a v) b = previousModule m b := by
  have := getField_setField ha hb .nextCRO .previousCRO hv
  simpa [nextModule, previousModule, setNextModule, setPreviousModule] using this

theorem previousModule_setPreviousModule (ha : HasHeader m a) (hb : b % pageSize = 0)
    (hv : v < 2 ^ 32) :
    previousModule (setPreviousModule m a v) b = if a = b then v else previousModule m b := by
  have := getField_setField ha hb .previousCRO .previousCRO hv
  simpa [nextModule, previousModule, setNextModule, setPreviousModule] using this

theorem fixedSize_setNextModule (ha : HasHeader m a) (hb : b % pageSize = 0) (hv : v < 2 ^ 32) :
    getField (setNextModule m a v) b .fixedSize = getField m b .fixedSize := by
  have := getField_setField ha hb .nextCRO .fixedSize hv
  simpa [nextModule, previousModule, setNextModule, setPreviousModule] using this

theorem fixedSize_setPreviousModule (ha : HasHeader m a) (hb : b % pageSize = 0)
    (hv : v < 2 ^ 32) :
    getField (setPreviousModule m a v) b .fixedSize = getField m b .fixedSize := by
  have := getField_setField ha hb .previousCRO .fixedSize hv
  simpa [nextModule, previousModule, setNextModule, setPreviousModule] using this

/-! ## Register and Unregister -/

/-- A memory that differs from another one in the links of modules only, as far as the registry
goes. -/
structure SameButLinks (m m' : PagedMemory) : Prop where
  mapped : m'.mapped = m.mapped
  fixedSize : ∀ b, b % pageSize = 0 → getField m' b .fixedSize = getField m b .fixedSize

theorem SameButLinks.setNext (h : SameButLinks m m') (ha : HasHeader m a) (hv : v < 2 ^ 32) :
    SameButLinks m (setNextModule m' a v) where
  mapped := by rw [mapped_setNextModule, h.mapped]
  fixedSize := by
    intro b hb
    rw [fixedSize_setNextModule (ha.of_mapped h.mapped) hb hv, h.fixedSize b hb]

theorem SameButLinks.setPrevious (h : SameButLinks m m') (ha : HasHeader m a) (hv : v < 2 ^ 32) :
    SameButLinks m (setPreviousModule m' a v) where
  mapped := by rw [mapped_setPreviousModule, h.mapped]
  fixedSize := by
    intro b hb
    rw [fixedSize_setPreviousModule (ha.of_mapped h.mapped) hb hv, h.fixedSize b hb]

theorem SameButLinks.refl : SameButLinks m m := ⟨rfl, fun _ _ => rfl⟩

/-- The head of the auto-link modules, or of the others. -/
def headOf (m : PagedMemory) (crs : Nat) (autoLink : Bool) : Nat :=
  if autoLink then nextModule m crs else previousModule m crs

def setHead (m : PagedMemory) (crs a : Nat) (autoLink : Bool) : PagedMemory :=
  if autoLink then setNextModule m crs a else setPreviousModule m crs a

/-- The loaded modules of one kind. -/
def Loaded.list (l : Loaded) (autoLink : Bool) : List Nat :=
  if autoLink then l.autoLinked else l.others

/-- The chains from the CRS list the loaded modules. -/
structure Chained (m : PagedMemory) (crs : Nat) (l : Loaded) : Prop where
  static : HasHeader m crs
  header : ∀ k, ∀ a ∈ l.list k, HasHeader m a ∧ a ≠ crs
  linked : ∀ k, Linked 0 (nextModule m) (previousModule m) (headOf m crs k) (l.list k)
  apart : ∀ k, ∀ a ∈ l.list k, a ∉ l.list (!k)

variable {l l' : Loaded} {k : Bool}

theorem Loaded.list_load (j : Bool) :
    (l.load a k).list j = if j = k then l.list k ++ [a] else l.list j := by
  cases j <;> cases k <;> rfl

theorem Loaded.list_unload (j : Bool) : (l.unload a).list j = (l.list j).erase a := by
  cases j <;> rfl

theorem nextModule_setHead (hc : HasHeader m crs) (hb : b % pageSize = 0) (hne : b ≠ crs)
    (hv : v < 2 ^ 32) : nextModule (setHead m crs v k) b = nextModule m b := by
  cases k with
  | true => exact (nextModule_setNextModule hc hb hv).trans (if_neg hne.symm)
  | false => exact nextModule_setPreviousModule hc hb hv

theorem previousModule_setHead (hc : HasHeader m crs) (hb : b % pageSize = 0) (hne : b ≠ crs)
    (hv : v < 2 ^ 32) : previousModule (setHead m crs v k) b = previousModule m b := by
  cases k with
  | true => exact previousModule_setNextModule hc hb hv
  | false => exact (previousModule_setPreviousModule hc hb hv).trans (if_neg hne.symm)

theorem headOf_setHead (hc : HasHeader m crs) (hv : v < 2 ^ 32) (j : Bool) :
    headOf (setHead m crs v k) crs j = if j = k then v else headOf m crs j := by
  have hal := hc.aligned
  cases j <;> cases k
  · exact (previousModule_setPreviousModule hc hal hv).trans (if_pos rfl)
  · exact previousModule_setNextModule hc hal hv
  · exact nextModule_setPreviousModule hc hal hv
  · exact (nextModule_setNextModule hc hal hv).trans (if_pos rfl)

/-- The links of a module do not tell the head of a list. -/
theorem headOf_setNextModule (ha : HasHeader m a) (hc : crs % pageSize = 0) (hne : a ≠ crs)
    (hv : v < 2 ^ 32) (j : Bool) : headOf (setNextModule m a v) crs j = headOf m crs j := by
  cases j with
  | true => exact (nextModule_setNextModule ha hc hv).trans (if_neg hne)
  | false => exact previousModule_setNextModule ha hc hv

theorem headOf_setPreviousModule (ha : HasHeader m a) (hc : crs % pageSize = 0) (hne : a ≠ crs)
    (hv : v < 2 ^ 32) (j : Bool) : headOf (setPreviousModule m a v) crs j = headOf m crs j := by
  cases j with
  | true => exact nextModule_setPreviousModule ha hc hv
  | false => exact (previousModule_setPreviousModule ha hc hv).trans (if_neg hne)

theorem SameButLinks.setHead (h : SameButLinks m m') (hc : HasHeader m crs) (hv : v < 2 ^ 32) :
    SameButLinks m (setHead m' crs v k) := by
  cases k with
  | true => exact h.setNext hc hv
  | false => exact h.setPrevious hc hv

/-- One list has changed and the other one has not been written to. -/
theorem Chained.update (h : Chained m crs l) (k : Bool) (hsame : SameButLinks m m')
    (hlinked : Linked 0 (nextModule m') (previousModule m') (headOf m' crs k) (l'.list k))
    (hnew : ∀ b ∈ l'.list k, HasHeader m b ∧ b ≠ crs ∧ b ∉ l.list (!k))
    (hother : l'.list (!k) = l.list (!k)) (hhead : headOf m' crs (!k) = headOf m crs (!k))
    (hnext : ∀ b ∈ l.list (!k), nextModule m' b = nextModule m b)
    (hprev : ∀ b ∈ l.list (!k), previousModule m' b = previousModule m b) :
    Chained m' crs l' where
  static := h.static.of_mapped hsame.mapped
  header := by
    intro j b hb
    by_cases hj : j = k
    · subst hj
      exact ⟨(hnew b hb).1.of_mapped hsame.mapped, (hnew b hb).2.1⟩
    · obtain rfl : j = !k := Bool.eq_not_of_ne hj
      rw [hother] at hb
      exact ⟨(h.header _ b hb).1.of_mapped hsame.mapped, (h.header _ b hb).2⟩
  linked := by
    intro j
    by_cases hj : j = k
    · exact hj ▸ hlinked
    · obtain rfl : j = !k := Bool.eq_not_of_ne hj
      rw [hother, hhead]
      exact (h.linked (!k)).congr hnext hprev
  apart := by
    intro j b hb
    by_cases hj : j = k
    · subst hj
      rw [hother]
      exact (hnew b hb).2.2
    · obtain rfl : j = !k := Bool.eq_not_of_ne hj
      rw [Bool.not_not]
      rw [hother] at hb
      exact fun hb' => (hnew b hb').2.2 hb

/-- The links that `Register` writes behind a tail. -/
def linkBehind (m : PagedMemory) (a head tail : Nat) : PagedMemory :=
  setNextModule (setPreviousModule (setNextModule (setPreviousModule m a tail) tail a) head a) a 0

variable {head p size start tail : Nat} {post pre : List Nat}

theorem nextModule_linkBehind (ha : HasHeader m a) (hh : HasHeader m head) (ht : HasHeader m tail)
    (hb : b % pageSize = 0) :
    nextModule (linkBehind m a head tail) b =
      if a = b then 0 else if tail = b then a else nextModule m b := by
  unfold linkBehind
  rw [nextModule_setNextModule (ha.of_mapped (by simp)) hb (by decide),
    nextModule_setPreviousModule (hh.of_mapped (by simp)) hb ha.lt,
    nextModule_setNextModule (ht.of_mapped (by simp)) hb ha.lt,
    nextModule_setPreviousModule ha hb ht.lt]

theorem previousModule_linkBehind (ha : HasHeader m a) (hh : HasHeader m head)
    (ht : HasHeader m tail) (hb : b % pageSize = 0) :
    previousModule (linkBehind m a head tail) b =
      if head = b then a else if a = b then tail else previousModule m b := by
  unfold linkBehind
  rw [previousModule_setNextModule (ha.of_mapped (by simp)) hb (by decide),
    previousModule_setPreviousModule (hh.of_mapped (by simp)) hb ha.lt,
    previousModule_setNextModule (ht.of_mapped (by simp)) hb ha.lt,
    previousModule_setPreviousModule ha hb ht.lt]

theorem sameButLinks_linkBehind (ha : HasHeader m a) (hh : HasHeader m head) (ht : HasHeader m tail)
    :
    SameButLinks m (linkBehind m a head tail) :=
  (((SameButLinks.refl.setPrevious ha ht.lt).setNext ht ha.lt).setPrevious hh ha.lt).setNext ha
    (by decide)

/-- The list that a module is put on, when it has elements. -/
theorem linked_linkBehind {xs : List Nat} (h : Linked 0 (nextModule m) (previousModule m) head xs)
    (hxs : ∀ b ∈ xs, HasHeader m b) (ha : HasHeader m a) (h0 : a ≠ 0) (hfresh : a ∉ xs)
    (hne : head ≠ 0) :
    ∃ tail ∈ xs.getLast?, previousModule m head = tail ∧ nextModule m tail = 0 ∧ head ∈ xs ∧
      Linked 0 (nextModule (linkBehind m a head tail)) (previousModule (linkBehind m a head tail))
        head (xs ++ [a]) := by
  have hhead := h.head_mem hne
  have hmem := List.mem_of_mem_head? hhead
  obtain ⟨tail, htail⟩ : ∃ t, t ∈ xs.getLast? :=
    ⟨_, List.getLast?_eq_getLast_of_ne_nil (List.ne_nil_of_mem hmem)⟩
  have htmem := List.mem_of_mem_getLast? htail
  have hal := ha.aligned
  refine ⟨tail, htail, h.back head hhead tail htail, h.last tail htail, hmem, ?_⟩
  refine h.pushBack h0 hfresh hhead htail ?_ ?_ ?_ ?_ ?_ ?_
  · rw [nextModule_linkBehind ha (hxs _ hmem) (hxs _ htmem) hal, if_pos rfl]
  · have : a ≠ tail := fun hat => hfresh (hat ▸ htmem)
    rw [nextModule_linkBehind ha (hxs _ hmem) (hxs _ htmem) (hxs _ htmem).aligned, if_neg this,
      if_pos rfl]
  · intro c hc hct
    have : a ≠ c := fun hac => hfresh (hac ▸ hc)
    rw [nextModule_linkBehind ha (hxs _ hmem) (hxs _ htmem) (hxs _ hc).aligned, if_neg this,
      if_neg hct.symm]
  · have : head ≠ a := fun hat => hfresh (hat ▸ hmem)
    rw [previousModule_linkBehind ha (hxs _ hmem) (hxs _ htmem) hal, if_neg this, if_pos rfl]
  · rw [previousModule_linkBehind ha (hxs _ hmem) (hxs _ htmem) (hxs _ hmem).aligned, if_pos rfl]
  · intro c hc hch
    have : a ≠ c := fun hac => hfresh (hac ▸ hc)
    rw [previousModule_linkBehind ha (hxs _ hmem) (hxs _ htmem) (hxs _ hc).aligned,
      if_neg hch.symm, if_neg this]

theorem register_eq (autoLink : Bool) :
    register m crs a autoLink =
      if headOf m crs autoLink ≠ 0 then
        if nextModule m (previousModule m (headOf m crs autoLink)) ≠ 0 then none
        else
          some (linkBehind m a (headOf m crs autoLink)
            (previousModule m (headOf m crs autoLink)))
      else some (setNextModule (setHead (setPreviousModule m a a) crs a autoLink) a 0) :=
  rfl

/-- `Register` puts a module behind the last one of its kind. -/
theorem register_spec (h : Chained m crs l) (ha : HasHeader m a) (hne : a ≠ crs) (h0 : a ≠ 0)
    (hfresh : ∀ k, a ∉ l.list k) (autoLink : Bool) :
    ∃ m', register m crs a autoLink = some m' ∧ Chained m' crs (l.load a autoLink) ∧
      SameButLinks m m' := by
  have hcal := h.static.aligned
  have hother : (l.load a autoLink).list (!autoLink) = l.list (!autoLink) := by
    rw [Loaded.list_load, if_neg (by simp)]
  have hlist : (l.load a autoLink).list autoLink = l.list autoLink ++ [a] := by
    rw [Loaded.list_load, if_pos rfl]
  have hnew : ∀ b ∈ (l.load a autoLink).list autoLink,
      HasHeader m b ∧ b ≠ crs ∧ b ∉ l.list (!autoLink) := by
    intro b hb
    rw [hlist, List.mem_append, List.mem_singleton] at hb
    rcases hb with hb | rfl
    · exact ⟨(h.header _ b hb).1, (h.header _ b hb).2, h.apart _ b hb⟩
    · exact ⟨ha, hne, hfresh _⟩
  by_cases hhead : headOf m crs autoLink = 0
  · -- the first module of its kind
    have hnil : l.list autoLink = [] := (hhead ▸ h.linked autoLink).eq_nil
    have hp : HasHeader (setPreviousModule m a a) crs := h.static.of_mapped (by simp)
    have hsame₁ : SameButLinks m (setPreviousModule m a a) := SameButLinks.refl.setPrevious ha ha.lt
    have hsame₂ := hsame₁.setHead (k := autoLink) h.static ha.lt
    have hsame₃ := hsame₂.setNext ha (v := 0) (by decide)
    have ha₂ := ha.of_mapped hsame₂.mapped
    have hnext : ∀ b, b % pageSize = 0 → b ≠ crs →
        nextModule (setNextModule (setHead (setPreviousModule m a a) crs a autoLink) a 0) b =
          if a = b then 0 else nextModule m b := by
      intro b hb hbc
      rw [nextModule_setNextModule ha₂ hb (by decide), nextModule_setHead hp hb hbc ha.lt,
        nextModule_setPreviousModule ha hb ha.lt]
    have hprev : ∀ b, b % pageSize = 0 → b ≠ crs →
        previousModule (setNextModule (setHead (setPreviousModule m a a) crs a autoLink) a 0) b =
          if a = b then a else previousModule m b := by
      intro b hb hbc
      rw [previousModule_setNextModule ha₂ hb (by decide), previousModule_setHead hp hb hbc ha.lt,
        previousModule_setPreviousModule ha hb ha.lt]
    have hheads : ∀ j,
        headOf (setNextModule (setHead (setPreviousModule m a a) crs a autoLink) a 0) crs j =
          if j = autoLink then a else headOf m crs j := by
      intro j
      rw [headOf_setNextModule ha₂ hcal hne (by decide), headOf_setHead hp ha.lt,
        headOf_setPreviousModule ha hcal hne ha.lt]
    refine ⟨_, ?_, h.update autoLink hsame₃ ?_ hnew hother ?_ ?_ ?_, hsame₃⟩
    · rw [register_eq, if_neg (not_not.mpr hhead)]
    · rw [hlist, hnil, hheads, if_pos rfl]
      refine Linked.single h0 ?_ ?_
      · rw [hnext a ha.aligned hne, if_pos rfl]
      · rw [hprev a ha.aligned hne, if_pos rfl]
    · rw [hheads, if_neg (by simp)]
    · intro b hb
      obtain ⟨hbh, hbc⟩ := h.header _ b hb
      rw [hnext b hbh.aligned hbc, if_neg]
      rintro rfl
      exact hfresh _ hb
    · intro b hb
      obtain ⟨hbh, hbc⟩ := h.header _ b hb
      rw [hprev b hbh.aligned hbc, if_neg]
      rintro rfl
      exact hfresh _ hb
  · -- behind the tail, which the head points back to
    obtain ⟨tail, htail, hback, hlast, hmem, hlinked⟩ := linked_linkBehind (h.linked autoLink)
      (fun b hb => (h.header _ b hb).1) ha h0 (hfresh _) hhead
    have htmem := List.mem_of_mem_getLast? htail
    obtain ⟨hh, hhc⟩ := h.header _ _ hmem
    obtain ⟨ht, htc⟩ := h.header _ _ htmem
    have hsame := sameButLinks_linkBehind ha hh ht
    have hheads : ∀ j, headOf (linkBehind m a (headOf m crs autoLink) tail) crs j =
        headOf m crs j := by
      intro j
      unfold linkBehind
      rw [headOf_setNextModule (ha.of_mapped (by simp)) hcal hne (by decide),
        headOf_setPreviousModule (hh.of_mapped (by simp)) hcal hhc ha.lt,
        headOf_setNextModule (ht.of_mapped (by simp)) hcal htc ha.lt,
        headOf_setPreviousModule ha hcal hne ht.lt]
    have hnot : ∀ b ∈ l.list (!autoLink), a ≠ b ∧ tail ≠ b ∧ headOf m crs autoLink ≠ b := by
      intro b hb
      refine ⟨?_, ?_, ?_⟩
      · rintro rfl
        exact hfresh _ hb
      · rintro rfl
        exact h.apart _ _ htmem hb
      · intro heq
        exact h.apart _ _ hmem (heq ▸ hb)
    refine ⟨_, ?_, h.update autoLink hsame ?_ hnew hother (hheads _) ?_ ?_, hsame⟩
    · rw [register_eq, if_pos hhead, hback, if_neg (not_not.mpr hlast)]
    · rw [hlist, hheads]
      exact hlinked
    · intro b hb
      obtain ⟨hab, htb, -⟩ := hnot b hb
      rw [nextModule_linkBehind ha hh ht (h.header _ b hb).1.aligned, if_neg hab, if_neg htb]
    · intro b hb
      obtain ⟨hab, -, hhb⟩ := hnot b hb
      rw [previousModule_linkBehind ha hh ht (h.header _ b hb).1.aligned, if_neg hhb, if_neg hab]

theorem nextModule_unlinkSelf (ha : HasHeader m a) (hb : b % pageSize = 0) :
    nextModule (unlinkSelf m a) b = if a = b then 0 else nextModule m b := by
  unfold unlinkSelf
  rw [nextModule_setPreviousModule (ha.of_mapped (by simp)) hb (by decide),
    nextModule_setNextModule ha hb (by decide)]

theorem previousModule_unlinkSelf (ha : HasHeader m a) (hb : b % pageSize = 0) :
    previousModule (unlinkSelf m a) b = if a = b then 0 else previousModule m b := by
  unfold unlinkSelf
  rw [previousModule_setPreviousModule (ha.of_mapped (by simp)) hb (by decide),
    previousModule_setNextModule ha hb (by decide)]

theorem headOf_unlinkSelf (ha : HasHeader m a) (hc : crs % pageSize = 0) (hne : a ≠ crs)
    (j : Bool) : headOf (unlinkSelf m a) crs j = headOf m crs j := by
  unfold unlinkSelf
  rw [headOf_setPreviousModule (ha.of_mapped (by simp)) hc hne (by decide),
    headOf_setNextModule ha hc hne (by decide)]

theorem SameButLinks.unlinkSelf (h : SameButLinks m m') (ha : HasHeader m a) :
    SameButLinks m (unlinkSelf m' a) :=
  (h.setNext ha (by decide)).setPrevious ha (by decide)

/-- The memory after `Unregister` of the head of a list. -/
def dropHead (m : PagedMemory) (crs a : Nat) (k : Bool) : PagedMemory :=
  unlinkSelf
    (setHead
      (if nextModule m a ≠ 0 then setPreviousModule m (nextModule m a) (previousModule m a) else m)
      crs (nextModule m a) k) a

/-- The memory after `Unregister` of a module between two others. -/
def dropMiddle (m : PagedMemory) (a p q : Nat) : PagedMemory :=
  unlinkSelf (setPreviousModule (setNextModule m p q) q p) a

/-- The memory after `Unregister` of the tail of a list. -/
def dropTail (m : PagedMemory) (a p head : Nat) : PagedMemory :=
  unlinkSelf (setPreviousModule (setNextModule m p 0) head p) a

/-- A head is not a module of the other kind. -/
theorem Chained.ne_headOf (h : Chained m crs l) (ha : a ∈ l.list k) : a ≠ headOf m crs (!k) := by
  intro heq
  have h0 : a ≠ 0 := by
    rintro rfl
    exact (h.linked k).null_notMem ha
  have := (h.linked (!k)).head_mem (heq ▸ h0)
  exact h.apart k a ha (List.mem_of_mem_head? (heq ▸ this))

/-- What `Unregister` does to the modules of the kind, by the place of the module. -/
theorem unregister_cases (h : Chained m crs l) (hl : l.list k = pre ++ a :: post) :
    (pre = [] ∧ unregister m crs a = some (dropHead m crs a k)) ∨
    (∃ p ∈ pre.getLast?, ∃ q ∈ post.head?, unregister m crs a = some (dropMiddle m a p q)) ∨
    (post = [] ∧ ∃ p ∈ pre.getLast?,
      unregister m crs a = some (dropTail m a p (headOf m crs k))) := by
  have ha : a ∈ l.list k := by simp [hl]
  have hlk := hl ▸ h.linked k
  have hnot := h.ne_headOf ha
  have hnext := hlk.next_eq
  have hself := hlk.head_eq
  cases hpre : pre with
  | nil =>
    left
    refine ⟨rfl, ?_⟩
    have hhead : a = headOf m crs k := by rw [hself, hpre]; rfl
    cases k with
    | true =>
      unfold unregister
      simp only
      rw [if_pos (.inl hhead), if_neg (show ¬ a = previousModule m crs from hnot)]
      rfl
    | false =>
      unfold unregister
      simp only
      rw [if_pos (.inr hhead), if_pos (show a = previousModule m crs from hhead)]
      rfl
  | cons c pre' =>
    right
    obtain ⟨p, hp⟩ : ∃ p, p ∈ pre.getLast? :=
      ⟨_, List.getLast?_eq_getLast_of_ne_nil (by simp [hpre])⟩
    have hprev : previousModule m a = p := hlk.prev_eq hp
    have hhead : a ≠ headOf m crs k := by
      rw [hself, hpre]
      rintro rfl
      have := hlk.nodup
      simp [hpre] at this
    have hnohead : ¬ (a = nextModule m crs ∨ a = previousModule m crs) := by
      cases k with
      | true => exact fun hor => hor.elim hhead hnot
      | false => exact fun hor => hor.elim hnot hhead
    cases hpost : post with
    | cons q post' =>
      left
      have hq : nextModule m a = q := by rw [hnext, hpost]; rfl
      have hq0 : q ≠ 0 := by
        rintro rfl
        exact hlk.null_notMem (by simp [hpost])
      refine ⟨p, hpre ▸ hp, q, rfl, ?_⟩
      unfold unregister
      rw [if_neg hnohead, hq, if_pos hq0, hprev]
      rfl
    | nil =>
      right
      refine ⟨rfl, p, hpre ▸ hp, ?_⟩
      have hn0 : nextModule m a = 0 := by rw [hnext, hpost]; rfl
      have hpmem : p ∈ l.list k := by simp [hl, List.mem_of_mem_getLast? hp]
      have hph := (h.header k p hpmem).1
      -- the write to the new tail leaves the back links of the heads
      have hback : ∀ b, b % pageSize = 0 →
          previousModule (setNextModule m p 0) b = previousModule m b := by
        intro b hb
        exact previousModule_setNextModule hph hb (by decide)
      have hne0 : headOf m crs k ≠ 0 := by
        rw [hself, hpre]
        rintro h0
        exact hlk.null_notMem (by simpa [hpre] using Or.inl h0.symm)
      have hhmem : headOf m crs k ∈ l.list k := List.mem_of_mem_head? ((h.linked k).head_mem hne0)
      have htail : previousModule m (headOf m crs k) = a :=
        (h.linked k).back _ ((h.linked k).head_mem hne0) a (by simp [hl, hpost])
      have hal := (h.header k _ hhmem).1.aligned
      unfold unregister
      rw [if_neg hnohead, if_neg (not_not.mpr hn0), hprev]
      cases k with
      | true =>
        rw [if_pos ⟨hne0, (hback _ hal).trans htail⟩]
        rfl
      | false =>
        -- the head of the other list points back to a module of its own
        rw [if_neg, if_pos ⟨hne0, (hback _ hal).trans htail⟩]
        · rfl
        · rintro ⟨hn, hb⟩
          have hmem := (h.linked true).head_mem hn
          have hmem' := List.mem_of_mem_head? hmem
          have hb' : previousModule m (headOf m crs true) = a :=
            (hback _ (h.header true _ hmem').1.aligned).symm.trans hb
          obtain ⟨t, ht⟩ : ∃ t, t ∈ (l.list true).getLast? :=
            ⟨_, List.getLast?_eq_getLast_of_ne_nil (List.ne_nil_of_mem hmem')⟩
          have := (h.linked true).back _ hmem t ht
          rw [hb'] at this
          exact h.apart false a ha (this ▸ List.mem_of_mem_getLast? ht)

/-- The list that a module is taken off, and what stays as it is. -/
structure TakenOff (m m' : PagedMemory) (crs a : Nat) (l : Loaded) (k : Bool) : Prop where
  same : SameButLinks m m'
  linked : Linked 0 (nextModule m') (previousModule m') (headOf m' crs k) ((l.list k).erase a)
  head : headOf m' crs (!k) = headOf m crs (!k)
  next : ∀ b ∈ l.list (!k), nextModule m' b = nextModule m b
  previous : ∀ b ∈ l.list (!k), previousModule m' b = previousModule m b

theorem erase_split (h : (pre ++ a :: post).Nodup) : (pre ++ a :: post).erase a = pre ++ post := by
  have hpre : a ∉ pre := by
    intro ha
    exact (List.nodup_append.mp h).2.2 a ha a (by simp) rfl
  rw [List.erase_append_right _ hpre, List.erase_cons_head]

theorem dropHead_takenOff (h : Chained m crs l) (hl : l.list k = a :: post) :
    TakenOff m (dropHead m crs a k) crs a l k := by
  have ha : a ∈ l.list k := by simp [hl]
  obtain ⟨hah, hac⟩ := h.header k a ha
  have hlk := hl ▸ h.linked k
  have hnext : nextModule m a = post.head?.getD 0 := by
    have hlk : Linked 0 _ _ _ ([] ++ a :: post) := hl ▸ h.linked k
    exact hlk.next_eq
  have hlt : nextModule m a < 2 ^ 32 := getField_lt _
  have hplt : previousModule m a < 2 ^ 32 := getField_lt _
  have hnodup := hlk.nodup
  have hheader : ∀ j, ∀ b ∈ l.list j, b % pageSize = 0 ∧ b ≠ crs := by
    intro j b hb
    exact ⟨(h.header j b hb).1.aligned, (h.header j b hb).2⟩
  -- the module behind, if there is one, points back to the tail
  obtain ⟨m₁, hm₁, hsame₁, hn₁, hp₁, hh₁⟩ : ∃ m₁,
      m₁ = (if nextModule m a ≠ 0 then setPreviousModule m (nextModule m a) (previousModule m a)
        else m) ∧ SameButLinks m m₁ ∧ (∀ b, b % pageSize = 0 → nextModule m₁ b = nextModule m b) ∧
      (∀ b, b % pageSize = 0 → previousModule m₁ b =
        if b ∈ post.head? then previousModule m a else previousModule m b) ∧
      (∀ j, headOf m₁ crs j = headOf m crs j) := by
    refine ⟨_, rfl, ?_⟩
    cases hpost : post with
    | nil =>
      rw [hnext, hpost]
      exact ⟨.refl, fun _ _ => rfl, fun _ _ => by simp, fun _ => rfl⟩
    | cons q post' =>
      have hq : nextModule m a = q := by rw [hnext, hpost]; rfl
      have hqmem : q ∈ l.list k := by simp [hl, hpost]
      obtain ⟨hqh, hqc⟩ := h.header k q hqmem
      have hq0 : q ≠ 0 := by
        rintro rfl
        exact (h.linked k).null_notMem hqmem
      rw [hq, if_pos hq0]
      refine ⟨SameButLinks.refl.setPrevious hqh hplt, ?_, ?_, ?_⟩
      · intro b hb
        exact nextModule_setPreviousModule hqh hb hplt
      · intro b hb
        rw [previousModule_setPreviousModule hqh hb hplt]
        simp
      · exact fun j => headOf_setPreviousModule hqh h.static.aligned hqc hplt j
  have hc₁ := h.static.of_mapped hsame₁.mapped
  have hsame₂ := hsame₁.setHead (k := k) h.static hlt
  have ha₂ := hah.of_mapped hsame₂.mapped
  have heq : dropHead m crs a k = unlinkSelf (setHead m₁ crs (nextModule m a) k) a := by
    rw [hm₁]
    rfl
  have hn : ∀ b, b % pageSize = 0 ∧ b ≠ crs →
      nextModule (dropHead m crs a k) b = if a = b then 0 else nextModule m b := by
    rintro b ⟨hb, hbc⟩
    rw [heq, nextModule_unlinkSelf ha₂ hb, nextModule_setHead hc₁ hb hbc hlt, hn₁ b hb]
  have hp : ∀ b, b % pageSize = 0 ∧ b ≠ crs →
      previousModule (dropHead m crs a k) b =
        if a = b then 0 else if b ∈ post.head? then previousModule m a else previousModule m b := by
    rintro b ⟨hb, hbc⟩
    rw [heq, previousModule_unlinkSelf ha₂ hb, previousModule_setHead hc₁ hb hbc hlt, hp₁ b hb]
  have hh : ∀ j, headOf (dropHead m crs a k) crs j =
      if j = k then nextModule m a else headOf m crs j := by
    intro j
    rw [heq, headOf_unlinkSelf ha₂ h.static.aligned hac, headOf_setHead hc₁ hlt, hh₁]
  have hpost : ∀ b ∈ post, b ∈ l.list k ∧ a ≠ b := by
    intro b hb
    refine ⟨hl ▸ List.mem_cons_of_mem _ hb, ?_⟩
    rintro rfl
    exact (List.nodup_cons.mp hnodup).1 hb
  have hother : ∀ b ∈ l.list (!k), a ≠ b ∧ b ∉ post.head? := by
    intro b hb
    constructor
    · rintro rfl
      exact h.apart k _ ha hb
    · intro hbp
      exact h.apart k b (hpost b (List.mem_of_mem_head? hbp)).1 hb
  constructor
  case same => exact heq ▸ hsame₂.unlinkSelf hah
  case linked =>
    rw [hl, List.erase_cons_head, hh k, if_pos rfl]
    refine hlk.eraseHead ?_ ?_ ?_
    · intro b hb
      rw [hn b (hheader k b (hpost b hb).1), if_neg (hpost b hb).2]
    · intro f hf
      obtain ⟨hfm, hfa⟩ := hpost f (List.mem_of_mem_head? hf)
      rw [hp f (hheader k f hfm), if_neg hfa, if_pos hf]
    · intro b hb
      obtain ⟨hbm, hba⟩ := hpost b (List.mem_of_mem_tail hb)
      rw [hp b (hheader k b hbm), if_neg hba, if_neg]
      exact fun hbh => notMem_tail (List.nodup_cons.mp hnodup).2 hbh hb
  case head => rw [hh, if_neg (by simp)]
  case next =>
    intro b hb
    rw [hn b (hheader _ b hb), if_neg (hother b hb).1]
  case previous =>
    intro b hb
    rw [hp b (hheader _ b hb), if_neg (hother b hb).1, if_neg (hother b hb).2]

/-- Two links of the list closed over a module of it, and its own cleared. -/
theorem relink_takenOff (h : Chained m crs l) {q v : Nat} (ha : a ∈ l.list k) (hp : p ∈ l.list k)
    (hq : q ∈ l.list k) (hv : v < 2 ^ 32) (hlinked : ∀ next previous : Nat → Nat,
      (∀ b ∈ l.list k, next b = if a = b then 0 else if p = b then v else nextModule m b) →
      (∀ b ∈ l.list k, previous b = if a = b then 0 else if q = b then p else previousModule m b) →
      Linked 0 next previous (headOf m crs k) ((l.list k).erase a)) :
    TakenOff m (unlinkSelf (setPreviousModule (setNextModule m p v) q p) a) crs a l k := by
  obtain ⟨hah, hac⟩ := h.header k a ha
  obtain ⟨hph, hpc⟩ := h.header k p hp
  obtain ⟨hqh, hqc⟩ := h.header k q hq
  have hal : ∀ j, ∀ b ∈ l.list j, b % pageSize = 0 := fun j b hb => (h.header j b hb).1.aligned
  have hn : ∀ b, b % pageSize = 0 →
      nextModule (unlinkSelf (setPreviousModule (setNextModule m p v) q p) a) b =
        if a = b then 0 else if p = b then v else nextModule m b := by
    intro b hb
    rw [nextModule_unlinkSelf (hah.of_mapped (by simp)) hb,
      nextModule_setPreviousModule (hqh.of_mapped (by simp)) hb hph.lt,
      nextModule_setNextModule hph hb hv]
  have hpv : ∀ b, b % pageSize = 0 →
      previousModule (unlinkSelf (setPreviousModule (setNextModule m p v) q p) a) b =
        if a = b then 0 else if q = b then p else previousModule m b := by
    intro b hb
    rw [previousModule_unlinkSelf (hah.of_mapped (by simp)) hb,
      previousModule_setPreviousModule (hqh.of_mapped (by simp)) hb hph.lt,
      previousModule_setNextModule hph hb hv]
  have hh : ∀ j, headOf (unlinkSelf (setPreviousModule (setNextModule m p v) q p) a) crs j =
      headOf m crs j := by
    intro j
    rw [headOf_unlinkSelf (hah.of_mapped (by simp)) h.static.aligned hac,
      headOf_setPreviousModule (hqh.of_mapped (by simp)) h.static.aligned hqc hph.lt,
      headOf_setNextModule hph h.static.aligned hpc hv]
  have hother : ∀ c ∈ l.list k, ∀ b ∈ l.list (!k), c ≠ b := by
    rintro c hc b hb rfl
    exact h.apart k _ hc hb
  constructor
  case same => exact ((SameButLinks.refl.setNext hph hv).setPrevious hqh hph.lt).unlinkSelf hah
  case linked =>
    rw [hh]
    exact hlinked _ _ (fun b hb => hn b (hal k b hb)) fun b hb => hpv b (hal k b hb)
  case head => exact hh _
  case next =>
    intro b hb
    rw [hn b (hal _ b hb), if_neg (hother a ha b hb), if_neg (hother p hp b hb)]
  case previous =>
    intro b hb
    rw [hpv b (hal _ b hb), if_neg (hother a ha b hb), if_neg (hother q hq b hb)]

theorem dropMiddle_takenOff (h : Chained m crs l) (hl : l.list k = pre ++ a :: post) {q : Nat}
    (hp : p ∈ pre.getLast?) (hq : q ∈ post.head?) : TakenOff m (dropMiddle m a p q) crs a l k := by
  have hpm := List.mem_of_mem_getLast? hp
  have hqm := List.mem_of_mem_head? hq
  have hlk := hl ▸ h.linked k
  have hnodup := hlk.nodup
  have hrest : ∀ b ∈ pre ++ post, b ∈ l.list k ∧ a ≠ b := by
    intro b hb
    constructor
    · rw [hl]
      rcases List.mem_append.mp hb with hb | hb <;> simp [hb]
    · rintro rfl
      rw [← erase_split hnodup] at hb
      exact (List.Nodup.mem_erase_iff hnodup).mp hb |>.1 rfl
  have hpr := hrest p (List.mem_append_left _ hpm)
  have hqr := hrest q (List.mem_append_right _ hqm)
  refine relink_takenOff h (by simp [hl]) hpr.1 hqr.1 (h.header k q hqr.1).1.lt ?_
  intro next previous hn hpv
  rw [hl, erase_split hnodup]
  refine hlk.eraseMiddle hp hq ?_ ?_ ?_ ?_
  · rw [hn p hpr.1, if_neg hpr.2, if_pos rfl]
  · intro b hb hbp
    rw [hn b (hrest b hb).1, if_neg (hrest b hb).2, if_neg hbp.symm]
  · rw [hpv q hqr.1, if_neg hqr.2, if_pos rfl]
  · intro b hb hbq
    rw [hpv b (hrest b hb).1, if_neg (hrest b hb).2, if_neg hbq.symm]

theorem dropTail_takenOff (h : Chained m crs l) (hl : l.list k = pre ++ [a]) (hp : p ∈ pre.getLast?)
    : TakenOff m (dropTail m a p (headOf m crs k)) crs a l k := by
  have hpm := List.mem_of_mem_getLast? hp
  obtain ⟨f, hf⟩ : ∃ f, f ∈ pre.head? := by
    cases pre with
    | nil => cases hp
    | cons c pre => exact ⟨c, rfl⟩
  have hfm := List.mem_of_mem_head? hf
  have hlk := hl ▸ h.linked k
  have hnodup := hlk.nodup
  have hhead : headOf m crs k = f := by
    rw [hlk.head_eq, List.head?_append, hf]
    rfl
  have hrest : ∀ b ∈ pre, b ∈ l.list k ∧ a ≠ b := by
    intro b hb
    constructor
    · simp [hl, hb]
    · rintro rfl
      exact (List.nodup_append.mp hnodup).2.2 a hb a (by simp) rfl
  rw [hhead]
  refine relink_takenOff h (by simp [hl]) (hrest p hpm).1 (hrest f hfm).1 (by decide) ?_
  intro next previous hn hpv
  rw [hl, erase_split hnodup, List.append_nil]
  refine hlk.eraseTail hp hf ?_ ?_ ?_ ?_
  · rw [hn p (hrest p hpm).1, if_neg (hrest p hpm).2, if_pos rfl]
  · intro b hb hbp
    rw [hn b (hrest b hb).1, if_neg (hrest b hb).2, if_neg hbp.symm]
  · rw [hpv f (hrest f hfm).1, if_neg (hrest f hfm).2, if_pos rfl]
  · intro b hb hbf
    rw [hpv b (hrest b hb).1, if_neg (hrest b hb).2, if_neg hbf.symm]

/-- `Unregister` takes a loaded module off its list. -/
theorem unregister_spec (h : Chained m crs l) (ha : a ∈ l.list k) :
    ∃ m', unregister m crs a = some m' ∧ Chained m' crs (l.unload a) ∧ SameButLinks m m' := by
  obtain ⟨pre, post, hl⟩ := List.append_of_mem ha
  obtain ⟨m', hm', ht⟩ : ∃ m', unregister m crs a = some m' ∧ TakenOff m m' crs a l k := by
    rcases unregister_cases h hl with ⟨hpre, he⟩ | ⟨p, hp, q, hq, he⟩ | ⟨hpost, p, hp, he⟩
    · exact ⟨_, he, dropHead_takenOff h (by rw [hl, hpre]; rfl)⟩
    · exact ⟨_, he, dropMiddle_takenOff h hl hp hq⟩
    · exact ⟨_, he, dropTail_takenOff h (by rw [hl, hpost]) hp⟩
  refine ⟨m', hm', h.update k ht.same ?_ ?_ ?_ ht.head ht.next ht.previous, ht.same⟩
  · rw [Loaded.list_unload]
    exact ht.linked
  · intro b hb
    rw [Loaded.list_unload] at hb
    have hb' := List.mem_of_mem_erase hb
    exact ⟨(h.header k b hb').1, (h.header k b hb').2, h.apart k b hb'⟩
  · rw [Loaded.list_unload, List.erase_of_not_mem (h.apart k a ha)]

/-! ## The pages of the modules -/

/-- Whether a page is one of those that `Fix` left to a module. -/
def ownsPage (m : PagedMemory) (a page : Nat) : Bool := inPages a (getField m a .fixedSize) page

/-- The chains, and modules on them that have their pages to themselves. -/
structure Registry (m : PagedMemory) (crs : Nat) (l : Loaded) : Prop where
  chained : Chained m crs l
  sized : ∀ k, ∀ a ∈ l.list k, pageSize ≤ getField m a .fixedSize
  owned : ∀ k, ∀ a ∈ l.list k, ∀ page, ownsPage m a page = true → m.mapped page = true
  disjoint : ∀ j k, ∀ a ∈ l.list j, ∀ b ∈ l.list k, a ≠ b →
    ∀ page, ownsPage m a page = true → ownsPage m b page = false
  static : ∀ k, ∀ a ∈ l.list k, ownsPage m a (crs / pageSize) = false

/-- The header fields that the registry rests on. -/
def HeaderField.inRegistry : HeaderField → Bool
  | .nextCRO => true
  | .previousCRO => true
  | .fixedSize => true
  | _ => false

/-- Bytes that are not of the registry's fields in the headers at `addresses`. -/
def Avoids (addresses : List Nat) (writes : List (Nat × Byte)) : Prop :=
  ∀ a ∈ addresses, ∀ f : HeaderField, f.inRegistry = true →
    ∀ w ∈ writes, w.1 < field a f ∨ field a f + 4 ≤ w.1

theorem Avoids.getField {addresses : List Nat} {writes : List (Nat × Byte)}
    (h : Avoids addresses writes) (ha : a ∈ addresses) {f : HeaderField}
    (hf : f.inRegistry = true) : getField (m.writeAll writes) a f = getField m a f :=
  read32_writeAll (h a ha f hf)

theorem Avoids.append {addresses : List Nat} {xs ys : List (Nat × Byte)}
    (h : Avoids addresses (xs ++ ys)) : Avoids addresses xs ∧ Avoids addresses ys :=
  ⟨fun a ha f hf w hw => h a ha f hf w (List.mem_append_left _ hw),
    fun a ha f hf w hw => h a ha f hf w (List.mem_append_right _ hw)⟩

theorem Avoids.subset {xs ys : List Nat} {writes : List (Nat × Byte)} (h : Avoids ys writes)
    (hsub : xs ⊆ ys) : Avoids xs writes :=
  fun a ha => h a (hsub ha)

/-- The page of a header is in the range of its module. -/
theorem inPages_self (ha : a % pageSize = 0) (hs : pageSize ≤ size) :
    inPages a size (a / pageSize) = true := by
  unfold inPages
  rw [Bool.and_eq_true, decide_eq_true_eq, decide_eq_true_eq]
  unfold pageSize at *
  omega

theorem Registry.ownsHeader (h : Registry m crs l) (ha : a ∈ l.list k) :
    ownsPage m a (a / pageSize) = true :=
  inPages_self (h.chained.header k a ha).1.aligned (h.sized k a ha)

/-- A header field lies in the first page of its module. -/
theorem field_in_page (ha : a % pageSize = 0) (f : HeaderField) :
    field a f / pageSize = a / pageSize ∧ field a f % pageSize + 4 ≤ pageSize := by
  have := f.index_le
  unfold field croHashSize pageSize at *
  omega

/-- The chains see the links of their modules only. -/
theorem Chained.congr (h : Chained m crs l)
    (hnext : ∀ b, b = crs ∨ (∃ k, b ∈ l.list k) → nextModule m' b = nextModule m b)
    (hprev : ∀ b, b = crs ∨ (∃ k, b ∈ l.list k) → previousModule m' b = previousModule m b)
    (hstatic : m'.mapped (crs / pageSize) = true)
    (hmapped : ∀ k, ∀ a ∈ l.list k, m'.mapped (a / pageSize) = true) : Chained m' crs l where
  static := ⟨h.static.aligned, hstatic, h.static.lt⟩
  header := by
    intro k a ha
    obtain ⟨hh, hc⟩ := h.header k a ha
    exact ⟨⟨hh.aligned, hmapped k a ha, hh.lt⟩, hc⟩
  linked := by
    intro k
    have hhead : headOf m' crs k = headOf m crs k := by
      cases k with
      | true => exact hnext crs (.inl rfl)
      | false => exact hprev crs (.inl rfl)
    rw [hhead]
    exact (h.linked k).congr (fun b hb => hnext b (.inr ⟨k, hb⟩)) fun b hb => hprev b (.inr ⟨k, hb⟩)
  apart := h.apart

/-- The registry sees its fields and its pages only. -/
theorem Registry.congr (h : Registry m crs l)
    (hfield : ∀ b, b = crs ∨ (∃ k, b ∈ l.list k) → ∀ f : HeaderField, f.inRegistry = true →
      getField m' b f = getField m b f)
    (hstatic : m'.mapped (crs / pageSize) = true)
    (hmapped : ∀ k, ∀ a ∈ l.list k, ∀ page, ownsPage m a page = true → m'.mapped page = true) :
    Registry m' crs l := by
  have howns : ∀ k, ∀ a ∈ l.list k, ownsPage m' a = ownsPage m a := by
    intro k a ha
    unfold ownsPage
    rw [hfield a (.inr ⟨k, ha⟩) .fixedSize rfl]
  constructor
  case chained =>
    refine h.chained.congr ?_ ?_ hstatic ?_
    · exact fun b hb => hfield b hb .nextCRO rfl
    · exact fun b hb => hfield b hb .previousCRO rfl
    · exact fun k a ha => hmapped k a ha _ (h.ownsHeader ha)
  case sized =>
    intro k a ha
    rw [hfield a (.inr ⟨k, ha⟩) .fixedSize rfl]
    exact h.sized k a ha
  case owned =>
    intro k a ha page hp
    rw [howns k a ha] at hp
    exact hmapped k a ha page hp
  case disjoint =>
    intro j k a ha b hb hab page hp
    rw [howns j a ha] at hp
    rw [howns k b hb]
    exact h.disjoint j k a ha b hb hab page hp
  case static =>
    intro k a ha
    rw [howns k a ha]
    exact h.static k a ha

theorem mem_all : a ∈ l.all ↔ ∃ k, a ∈ l.list k := by
  unfold Loaded.all
  rw [List.mem_append]
  constructor
  · rintro (h | h)
    · exact ⟨true, h⟩
    · exact ⟨false, h⟩
  · rintro ⟨k, h⟩
    cases k with
    | true => exact .inl h
    | false => exact .inr h

/-- Relocations that avoid the registry leave it. -/
theorem Registry.writeAll (h : Registry m crs l) {writes : List (Nat × Byte)}
    (ha : Avoids (crs :: l.all) writes) : Registry (m.writeAll writes) crs l := by
  refine h.congr ?_ ?_ ?_
  · rintro b hb f hf
    refine ha.getField ?_ hf
    rcases hb with rfl | hb
    · exact List.mem_cons_self
    · exact List.mem_cons_of_mem _ (mem_all.mpr hb)
  · rw [mapped_writeAll]
    exact h.chained.static.mapped
  · intro k a ha page hp
    rw [mapped_writeAll]
    exact h.owned k a ha page hp

/-- Pages that no module on a list owns. -/
def Unowned (m : PagedMemory) (crs : Nat) (l : Loaded) (start size : Nat) : Prop :=
  inPages start size (crs / pageSize) = false ∧
    ∀ k, ∀ a ∈ l.list k, ∀ page, ownsPage m a page = true → inPages start size page = false

theorem Registry.getField_of_page (h : Registry m crs l) (hu : Unowned m crs l start size) {b : Nat}
    (hb : b = crs ∨ ∃ k, b ∈ l.list k) :
    b % pageSize = 0 ∧ inPages start size (b / pageSize) = false := by
  rcases hb with rfl | ⟨k, hb⟩
  · exact ⟨h.chained.static.aligned, hu.1⟩
  · exact ⟨(h.chained.header k b hb).1.aligned, hu.2 k b hb _ (h.ownsHeader hb)⟩

theorem Registry.map (h : Registry m crs l) (hu : Unowned m crs l start size) (image : Nat → Byte) :
    Registry (m.map start size image) crs l := by
  have hmapped : ∀ page, m.mapped page = true → (m.map start size image).mapped page = true := by
    intro page hp
    simp [PagedMemory.map, hp]
  refine h.congr ?_ (hmapped _ h.chained.static.mapped) ?_
  · intro b hb f _
    obtain ⟨hal, hpage⟩ := h.getField_of_page hu hb
    obtain ⟨hfp, hin⟩ := field_in_page hal f
    exact read32_map hin (hfp ▸ hpage)
  · intro k a ha page hp
    exact hmapped page (h.owned k a ha page hp)

theorem Registry.unmap (h : Registry m crs l) (hu : Unowned m crs l start size) :
    Registry (m.unmap start size) crs l := by
  refine h.congr ?_ ?_ ?_
  · intro b hb f _
    obtain ⟨hal, hpage⟩ := h.getField_of_page hu hb
    obtain ⟨hfp, hin⟩ := field_in_page hal f
    exact read32_unmap hin (hfp ▸ hpage)
  · simp [PagedMemory.unmap, hu.1, h.chained.static.mapped]
  · intro k a ha page hp
    simp [PagedMemory.unmap, hu.2 k a ha page hp, h.owned k a ha page hp]

theorem Registry.unmapBuffer (h : Registry m crs l) (hu : Unowned m crs l start size)
    (error : Option ErrorCode) : Registry (unmapBuffer m start size error) crs l := by
  cases error with
  | some e => exact h
  | none => exact h.unmap hu

end GbaStation.Ldr
