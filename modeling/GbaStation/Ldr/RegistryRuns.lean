import GbaStation.Ldr.ModuleRegistry

/-!
# Runs of the RO service

What a request has to be like for the two lists to stay those of the loaded modules, and that they
do over every run of such requests. The error exits of `LoadCRO` behind `Register`, and those of
`UnloadCRO` behind `Unregister`, are the ones that break them: nothing takes the module off its
list in the first case, or puts it back in the second.
-/

namespace GbaStation.Ldr

open GbaStation.IntrusiveList PagedMemory

variable {m m' : PagedMemory} {crs a : Nat} {l : Loaded} {s : RO}

namespace RO

/-- The requests that keep the lists:
- what a request relocates is not a link, nor a fixed size, of a module;
- a module keeps its header when it is fixed, and once it is registered its load does not fail;
- an unload that gets past the checks is of a loaded module, and does not fail;
- the service is shut down when no module is loaded. -/
def Regular (s : RO) (l : Loaded) : Request → Prop
  | .initializeService r => Avoids [r.crsAddress] r.rebase.writes
  | .loadCRO r =>
    Avoids (r.croAddress :: s.loadedCrs :: l.all) (r.rebase.writes ++ r.link.writes ++ r.fix) ∧
      pageSize ≤ r.fixSize ∧ r.fixSize ≤ r.croSize ∧
      (r.rebase.error = none → r.link.error = none →
        (r.fixSize ≠ r.croSize → r.unmapTail = none) ∧ r.reprotect = none)
  | .unloadCRO r =>
    s.unloadAccepted r = true →
      r.croAddress ∈ l.all ∧
      Avoids (s.loadedCrs :: l.all)
        (r.unlink.writes ++ r.clearRelocations.writes ++ r.tables ++ r.header) ∧
      r.unlink.error = none ∧ r.clearRelocations.error = none ∧ r.unmap = none
  | .shutdown _ => s.loadedCrs ≠ 0 → l.all = []

/-- Every request of a run is regular when it comes. -/
def RegularRun (s : RO) (l : Loaded) : List Request → Prop
  | [] => True
  | r :: rs => s.Regular l r ∧ ∀ s' l', s.step l r = some (s', l') → s'.RegularRun l' rs

/-- The lists are those of the loaded modules, while there is a static module. -/
def Consistent (s : RO) (l : Loaded) : Prop :=
  if s.loadedCrs = 0 then l.all = [] else Registry s.memory s.loadedCrs l

end RO

/-! ## Mapping a module -/

variable {b size start : Nat} {k : Bool} {r : LoadRequest}

theorem mapBuffer_ok {address : Nat} {image : Nat → Byte} {error : Option ErrorCode}
    (h : mapBuffer m address size image error = .ok m') :
    m' = m.map address size image ∧ address + size ≤ 2 ^ 32 ∧
      (address % pageSize = 0 → size % pageSize = 0 →
        ∀ page, inPages address size page = true → m.mapped page = false) := by
  unfold mapBuffer at h
  cases error with
  | some e => cases h
  | none =>
    simp only at h
    split at h
    · cases h
    · rename_i hle
      split at h
      · cases h
      · rename_i hfree
        refine ⟨(Except.ok.inj h).symm, Nat.le_of_not_lt hle, ?_⟩
        intro hal hsz page hp
        rw [List.any_eq_true] at hfree
        by_contra hm
        refine hfree ⟨page - address / pageSize, ?_, ?_⟩
        · unfold inPages at hp
          rw [Bool.and_eq_true, decide_eq_true_eq, decide_eq_true_eq] at hp
          rw [List.mem_range]
          unfold pageSize at *
          omega
        · unfold inPages at hp
          rw [Bool.and_eq_true, decide_eq_true_eq] at hp
          rw [Nat.add_sub_cancel' hp.1]
          simpa using hm

/-- Pages that were free are owned by no module. -/
theorem Registry.unowned_of_free (h : Registry m crs l)
    (hfree : ∀ page, inPages start size page = true → m.mapped page = false) :
    Unowned m crs l start size := by
  constructor
  · by_contra hp
    have := hfree _ (by simpa using hp)
    rw [h.chained.static.mapped] at this
    cases this
  · intro k b hb page hown
    by_contra hp
    have := hfree page (by simpa using hp)
    rw [h.owned k b hb page hown] at this
    cases this

/-- What is unowned stays so while the sizes of the modules do not change. -/
theorem Unowned.congr (h : Unowned m crs l start size)
    (hsize : ∀ k, ∀ b ∈ l.list k, getField m' b .fixedSize = getField m b .fixedSize) :
    Unowned m' crs l start size := by
  refine ⟨h.1, ?_⟩
  intro k b hb page hown
  unfold ownsPage at hown
  rw [hsize k b hb] at hown
  exact h.2 k b hb page hown

theorem Unowned.writeAll (h : Unowned m crs l start size) {writes : List (Nat × Byte)}
    (ha : Avoids (crs :: l.all) writes) : Unowned (m.writeAll writes) crs l start size := by
  refine h.congr fun k b hb => ?_
  exact ha.getField (List.mem_cons_of_mem _ (mem_all.mpr ⟨k, hb⟩)) rfl

/-- What `Rebase` leaves: the memory as it was, or with what the rest of it writes. -/
theorem rebase_spec (m : PagedMemory) (a : Nat) (part : Part) :
    (∃ e, rebase m a part = (m, some e)) ∨
      rebase m a part = (m.writeAll part.writes, part.error) := by
  unfold rebase
  split
  · exact .inl ⟨_, rfl⟩
  · split
    · exact .inl ⟨_, rfl⟩
    · split
      · exact .inl ⟨_, rfl⟩
      · exact .inr rfl

/-- The header of a module that has just been mapped. -/
theorem hasHeader_map {image : Nat → Byte} (hlt : a < 2 ^ 32) (hal : a % pageSize = 0)
    (hsz : size % pageSize = 0) (hsize : ¬ size < croHeaderSize) :
    HasHeader (m.map a size image) a := by
  refine ⟨hal, ?_, hlt⟩
  have : inPages a size (a / pageSize) = true := by
    refine inPages_self hal ?_
    unfold croHeaderSize pageSize at *
    omega
  simp [PagedMemory.map, this]

/-! ## Initialize and Shutdown -/

theorem registry_of_empty (hs : HasHeader m crs) (hl : l.all = []) (hn : nextModule m crs = 0)
    (hp : previousModule m crs = 0) : Registry m crs l := by
  have hnil : ∀ k, l.list k = [] := by
    intro k
    rw [List.eq_nil_iff_forall_not_mem]
    intro b hb
    have := mem_all.mpr ⟨k, hb⟩
    rw [hl] at this
    cases this
  have hnot : ∀ k b, b ∉ l.list k := by
    intro k b hb
    rw [hnil k] at hb
    cases hb
  constructor
  case chained =>
    constructor
    case static => exact hs
    case header => exact fun k b hb => absurd hb (hnot k b)
    case linked =>
      intro k
      rw [hnil k]
      cases k with
      | true => exact hn ▸ Linked.empty
      | false => exact hp ▸ Linked.empty
    case apart => exact fun k b hb => absurd hb (hnot k b)
  case sized => exact fun k b hb => absurd hb (hnot k b)
  case owned => exact fun k b hb => absurd hb (hnot k b)
  case disjoint => exact fun j k b hb => absurd hb (hnot j b)
  case static => exact fun k b hb => absurd hb (hnot k b)

/-- Past its checks, `Initialize` maps the CRS and rebases it. -/
theorem initializeService_cases (r : InitializeRequest) :
    (s.initializeService r).1 = s ∨
      s.loadedCrs = 0 ∧ ¬ r.crsSize < croHeaderSize ∧ r.crsAddress % pageSize = 0 ∧
        r.crsSize % pageSize = 0 ∧ ¬ r.crsAddress < processImageVaddr ∧
        ∃ m', mapBuffer s.memory r.crsAddress r.crsSize r.image r.map = .ok m' ∧
          (s.initializeService r).1 =
            match rebase (initCRS m' r.crsAddress) r.crsAddress r.rebase with
            | (m', some _) => { s with memory := m' }
            | (m', none) => ⟨m', r.crsAddress⟩ := by
  unfold RO.initializeService
  split
  · exact .inl rfl
  · rename_i hzero
    split
    · exact .inl rfl
    · rename_i hsize
      split
      · exact .inl rfl
      · split
        · exact .inl rfl
        · rename_i hal
          split
          · exact .inl rfl
          · rename_i hszal
            split
            · exact .inl rfl
            · split
              · exact .inl rfl
              · rename_i hrange
                split
                · exact .inl rfl
                · rename_i m' hmap
                  refine .inr ⟨not_not.mp hzero, hsize, not_not.mp hal, not_not.mp hszal,
                    fun hlt => hrange (.inl hlt), m', hmap, ?_⟩
                  cases rebase (initCRS m' r.crsAddress) r.crsAddress r.rebase with
                  | mk m'' e => cases e <;> rfl

theorem initialize_consistent (h : s.Consistent l) {r : InitializeRequest}
    (hr : Avoids [r.crsAddress] r.rebase.writes) : (s.initializeService r).1.Consistent l := by
  rcases initializeService_cases (s := s) r with heq |
    ⟨hzero, hsize, hal, hszal, hrange, m', hmap, heq⟩
  · rw [heq]
    exact h
  · have hnil : l.all = [] := by
      unfold RO.Consistent at h
      rwa [if_pos hzero] at h
    have hfail : ∀ m'', RO.Consistent { s with memory := m'' } l := by
      intro m''
      unfold RO.Consistent
      rwa [if_pos hzero]
    obtain ⟨rfl, -, -⟩ := mapBuffer_ok hmap
    have hs : HasHeader (s.memory.map r.crsAddress r.crsSize r.image) r.crsAddress :=
      hasHeader_map r.crsAddress_lt hal hszal hsize
    rw [heq]
    rcases rebase_spec _ _ r.rebase with ⟨e, he⟩ | he
    · rw [he]
      exact hfail _
    · rw [he]
      cases r.rebase.error with
      | some e => exact hfail _
      | none =>
        have hpos : r.crsAddress ≠ 0 := by
          rintro h0
          rw [h0] at hrange
          exact hrange (by decide)
        have hinit : nextModule (initCRS (s.memory.map r.crsAddress r.crsSize r.image) r.crsAddress)
            r.crsAddress = 0 ∧ previousModule
              (initCRS (s.memory.map r.crsAddress r.crsSize r.image) r.crsAddress)
              r.crsAddress = 0 := by
          unfold initCRS
          constructor
          · rw [nextModule_setPreviousModule (hs.of_mapped (by simp)) hal (by decide),
              nextModule_setNextModule hs hal (by decide), if_pos rfl]
          · rw [previousModule_setPreviousModule (hs.of_mapped (by simp)) hal (by decide),
              if_pos rfl]
        unfold RO.Consistent
        rw [if_neg hpos]
        refine registry_of_empty (hs.of_mapped ?_) hnil ?_ ?_
        · simp [initCRS]
        · exact (hr.getField (f := .nextCRO) List.mem_cons_self rfl).trans hinit.1
        · exact (hr.getField (f := .previousCRO) List.mem_cons_self rfl).trans hinit.2

theorem shutdown_consistent (h : s.Consistent l) {r : ShutdownRequest}
    (hr : s.loadedCrs ≠ 0 → l.all = []) : (s.shutdown r).1.Consistent l := by
  unfold RO.shutdown
  split
  · exact h
  · rename_i hcrs
    exact hr hcrs

/-! ## LoadCRO -/

theorem mem_load {j : Bool} : b ∈ (l.load a k).list j ↔ b ∈ l.list j ∨ j = k ∧ b = a := by
  rw [Loaded.list_load]
  by_cases hj : j = k
  · subst hj
    simp
  · simp [hj]

/-- Fixing a module leaves the sizes of the others. -/
theorem fixedSize_fixed (h : Registry m crs l) {m₁ : PagedMemory} (hsame : SameButLinks m m₁)
    {fix : List (Nat × Byte)} (ha : HasHeader (m₁.writeAll fix) a)
    (hfix : Avoids (a :: crs :: l.all) fix) {fixSize : Nat} (hlt : fixSize < 2 ^ 32)
    (hb : b ∈ l.list k) (hne : a ≠ b) :
    getField (setField (m₁.writeAll fix) a .fixedSize fixSize) b .fixedSize =
      getField m b .fixedSize := by
  have hal := (h.chained.header k b hb).1.aligned
  have hmem : b ∈ a :: crs :: l.all := by simp [mem_all.mpr ⟨k, hb⟩]
  rw [getField_setField ha hal _ _ hlt, if_neg fun heq => hne heq.1, hfix.getField hmem rfl,
    hsame.fixedSize b hal]

/-- A module that is registered and fixed has the pages that `Fix` leaves to it. -/
theorem registry_fixed (h : Registry m crs l) {m₁ : PagedMemory} (hc : Chained m₁ crs (l.load a k))
    (hsame : SameButLinks m m₁) (ha : HasHeader m a) (hfresh : ∀ k, a ∉ l.list k) (hcrs : a ≠ crs)
    {fix : List (Nat × Byte)} (hfix : Avoids (a :: crs :: l.all) fix) {fixSize : Nat}
    (hsize : pageSize ≤ fixSize) (hlt : fixSize < 2 ^ 32) (hu : Unowned m crs l a fixSize)
    (hmapped : ∀ page, inPages a fixSize page = true → m.mapped page = true) :
    Registry (setField (m₁.writeAll fix) a .fixedSize fixSize) crs (l.load a k) := by
  have hal : ∀ b, b = crs ∨ (∃ j, b ∈ (l.load a k).list j) → b % pageSize = 0 := by
    rintro b (rfl | ⟨j, hb⟩)
    · exact hc.static.aligned
    · exact (hc.header j b hb).1.aligned
  have hmem : ∀ b, b = crs ∨ (∃ j, b ∈ (l.load a k).list j) → b ∈ a :: crs :: l.all := by
    rintro b (rfl | ⟨j, hb⟩)
    · simp
    · rcases mem_load.mp hb with hb | ⟨-, rfl⟩
      · simp [mem_all.mpr ⟨j, hb⟩]
      · simp
  have ha₁ : HasHeader (m₁.writeAll fix) a := ha.of_mapped (by rw [mapped_writeAll, hsame.mapped])
  have hfield : ∀ b, b = crs ∨ (∃ j, b ∈ (l.load a k).list j) → ∀ f : HeaderField,
      f.inRegistry = true → getField (setField (m₁.writeAll fix) a .fixedSize fixSize) b f =
        if a = b ∧ HeaderField.fixedSize = f then fixSize else getField m₁ b f := by
    intro b hb f hf
    rw [getField_setField ha₁ (hal b hb) _ _ hlt, hfix.getField (hmem b hb) hf]
  -- the sizes of the modules that were there before
  have hold : ∀ j, ∀ b ∈ l.list j,
      getField (setField (m₁.writeAll fix) a .fixedSize fixSize) b .fixedSize =
        getField m b .fixedSize := by
    intro j b hb
    exact fixedSize_fixed h hsame ha₁ hfix hlt hb fun heq => hfresh j (heq ▸ hb)
  have hnew : getField (setField (m₁.writeAll fix) a .fixedSize fixSize) a .fixedSize =
      fixSize := by
    rw [hfield a (.inr ⟨k, mem_load.mpr (.inr ⟨rfl, rfl⟩)⟩) _ rfl, if_pos ⟨rfl, rfl⟩]
  have howns : ∀ j, ∀ b ∈ l.list j, ∀ page,
      ownsPage (setField (m₁.writeAll fix) a .fixedSize fixSize) b page = ownsPage m b page := by
    intro j b hb page
    unfold ownsPage
    rw [hold j b hb]
  have hownsa : ∀ page, ownsPage (setField (m₁.writeAll fix) a .fixedSize fixSize) a page =
      inPages a fixSize page := by
    intro page
    unfold ownsPage
    rw [hnew]
  have hmap : (setField (m₁.writeAll fix) a .fixedSize fixSize).mapped = m.mapped := by
    rw [mapped_setField, mapped_writeAll, hsame.mapped]
  constructor
  case chained =>
    have hmap₁ : (setField (m₁.writeAll fix) a .fixedSize fixSize).mapped = m₁.mapped := by
      rw [hmap, hsame.mapped]
    refine hc.congr ?_ ?_ ?_ ?_
    · intro b hb
      exact (hfield b hb .nextCRO rfl).trans (if_neg (by simp))
    · intro b hb
      exact (hfield b hb .previousCRO rfl).trans (if_neg (by simp))
    · rw [hmap₁]
      exact hc.static.mapped
    · intro j b hb
      rw [hmap₁]
      exact (hc.header j b hb).1.mapped
  case sized =>
    intro j b hb
    rcases mem_load.mp hb with hb | ⟨-, rfl⟩
    · rw [hold j b hb]
      exact h.sized j b hb
    · rw [hnew]
      exact hsize
  case owned =>
    intro j b hb page hp
    rw [hmap]
    rcases mem_load.mp hb with hb | ⟨-, rfl⟩
    · rw [howns j b hb] at hp
      exact h.owned j b hb page hp
    · rw [hownsa] at hp
      exact hmapped page hp
  case disjoint =>
    intro i j b hb c hc hbc page hp
    rcases mem_load.mp hb with hold | ⟨-, hba⟩
    · rw [howns i b hold] at hp
      rcases mem_load.mp hc with hold' | ⟨-, hca⟩
      · rw [howns j c hold']
        exact h.disjoint i j b hold c hold' hbc page hp
      · rw [hca, hownsa]
        exact hu.2 i b hold page hp
    · rcases mem_load.mp hc with hold' | ⟨-, hca⟩
      · rw [hba, hownsa] at hp
        rw [howns j c hold']
        by_contra hown
        have := hu.2 j c hold' page (by simpa using hown)
        rw [hp] at this
        cases this
      · exact absurd (hba.trans hca.symm) hbc
  case static =>
    intro j b hb
    rcases mem_load.mp hb with hb | ⟨-, rfl⟩
    · rw [howns j b hb]
      exact h.static j b hb
    · rw [hownsa]
      exact hu.1

theorem inPages_mono {start' size' page : Nat} (hle : start ≤ start')
    (hend : start' + size' ≤ start + size) (h : inPages start' size' page = true) :
    inPages start size page = true := by
  unfold inPages at h ⊢
  rw [Bool.and_eq_true, decide_eq_true_eq, decide_eq_true_eq] at h ⊢
  exact ⟨Nat.le_trans (Nat.div_le_div_right hle) h.1,
    Nat.lt_of_lt_of_le h.2 (Nat.div_le_div_right hend)⟩

/-- A part of a range is unowned when the range is. -/
theorem Unowned.mono {start' size' : Nat} (h : Unowned m crs l start size) (hle : start ≤ start')
    (hend : start' + size' ≤ start + size) : Unowned m crs l start' size' := by
  have hsub : ∀ page, inPages start size page = false → inPages start' size' page = false := by
    intro page hp
    by_contra hp'
    rw [inPages_mono hle hend (by simpa using hp')] at hp
    cases hp
  exact ⟨hsub _ h.1, fun k a ha page hown => hsub page (h.2 k a ha page hown)⟩

/-- Unmapping the end of a module leaves the registry. -/
theorem registry_loadFixed (h : Registry m crs (l.load a k)) (hra : r.croAddress = a)
    (hle : r.fixSize ≤ r.croSize) (hend : a + r.croSize ≤ 2 ^ 32) (hsz : r.croSize < 2 ^ 32)
    (hown : getField m a .fixedSize = r.fixSize) (hu : Unowned m crs l a r.croSize)
    (htail : r.fixSize ≠ r.croSize → r.unmapTail = none) (hprot : r.reprotect = none) :
    ∃ m', RO.loadFixed m r = (m', .ok r.fixSize) ∧ Registry m' crs (l.load a k) := by
  unfold RO.loadFixed
  by_cases hsize : r.fixSize = r.croSize
  · simp only [if_pos hsize, hprot]
    exact ⟨_, rfl, h⟩
  · simp only [if_neg hsize, htail hsize, hprot]
    refine ⟨_, rfl, h.unmap ?_⟩
    rw [hra, add32_eq (by omega), sub32_eq hle hsz]
    have hu' : Unowned _ crs l (a + r.fixSize) (r.croSize - r.fixSize) :=
      hu.mono (by omega) (by omega)
    refine ⟨hu'.1, ?_⟩
    intro j b hb page hp
    rcases mem_load.mp hb with hold | ⟨-, rfl⟩
    · exact hu'.2 j b hold page hp
    · -- the module owns what is before its end
      unfold ownsPage at hp
      rw [hown] at hp
      unfold inPages at hp ⊢
      rw [Bool.and_eq_true, decide_eq_true_eq, decide_eq_true_eq] at hp
      simp only [Bool.and_eq_false_iff, decide_eq_false_iff_not]
      omega

/-- What `LoadCRO` leaves, once the module is mapped. -/
theorem loadMapped_spec (h : Registry m crs l) (ha : HasHeader m r.croAddress)
    (h0 : r.croAddress ≠ 0) (hend : r.croAddress + r.croSize ≤ 2 ^ 32)
    (hu : Unowned m crs l r.croAddress r.croSize)
    (hmapped : ∀ page, inPages r.croAddress r.croSize page = true → m.mapped page = true)
    (hwrites : Avoids (r.croAddress :: crs :: l.all) (r.rebase.writes ++ r.link.writes ++ r.fix))
    (hfix : pageSize ≤ r.fixSize) (hle : r.fixSize ≤ r.croSize)
    (hexits : r.rebase.error = none → r.link.error = none →
      (r.fixSize ≠ r.croSize → r.unmapTail = none) ∧ r.reprotect = none) :
    ∃ m' result, RO.loadMapped m crs r = some (m', result) ∧
      Registry m' crs (if result.toBool then l.load r.croAddress r.autoLink else l) := by
  obtain ⟨hwrites, hfixw⟩ := hwrites.append
  obtain ⟨hrebase, hlink⟩ := hwrites.append
  have hsub : crs :: l.all ⊆ r.croAddress :: crs :: l.all := List.subset_cons_self ..
  have hself : inPages r.croAddress r.croSize (r.croAddress / pageSize) = true :=
    inPages_self ha.aligned (Nat.le_trans hfix hle)
  unfold RO.loadMapped
  rcases rebase_spec m r.croAddress r.rebase with ⟨e, he⟩ | he
  · rw [he]
    exact ⟨_, _, rfl, h.unmapBuffer hu _⟩
  · rw [he]
    have h₁ := h.writeAll (hrebase.subset hsub)
    have hu₁ := hu.writeAll (hrebase.subset hsub)
    cases hre : r.rebase.error with
    | some e => exact ⟨_, _, rfl, h₁.unmapBuffer hu₁ _⟩
    | none =>
      simp only
      have h₂ := h₁.writeAll (hlink.subset hsub)
      have hu₂ := hu₁.writeAll (hlink.subset hsub)
      cases hle' : r.link.error with
      | some e => exact ⟨_, _, rfl, h₂.unmapBuffer hu₂ _⟩
      | none =>
        obtain ⟨htail, hprot⟩ := hexits hre hle'
        have ha₂ : HasHeader ((m.writeAll r.rebase.writes).writeAll r.link.writes) r.croAddress :=
          ha.of_mapped (by simp)
        have hcrs : r.croAddress ≠ crs := by
          intro heq
          have := hu.1
          rw [← heq, hself] at this
          cases this
        have hfresh : ∀ k, r.croAddress ∉ l.list k := by
          intro k hmem
          have := hu₂.2 k _ hmem _ (h₂.ownsHeader hmem)
          rw [hself] at this
          cases this
        obtain ⟨m₃, hreg, hchain, hsame⟩ := register_spec h₂.chained ha₂ hcrs h0 hfresh r.autoLink
        have hmap₂ : ∀ page, inPages r.croAddress r.fixSize page = true →
            ((m.writeAll r.rebase.writes).writeAll r.link.writes).mapped page = true := by
          intro page hp
          rw [mapped_writeAll, mapped_writeAll]
          exact hmapped page (inPages_mono (Nat.le_refl _) (by omega) hp)
        have h₄ := registry_fixed h₂ hchain hsame ha₂ hfresh hcrs hfixw hfix r.fixSize_lt
          (hu₂.mono (Nat.le_refl _) (by omega)) hmap₂
        have ha₃ : HasHeader (m₃.writeAll r.fix) r.croAddress :=
          ha₂.of_mapped (by rw [mapped_writeAll, hsame.mapped])
        have hown : getField (setField (m₃.writeAll r.fix) r.croAddress .fixedSize r.fixSize)
            r.croAddress .fixedSize = r.fixSize := by
          rw [getField_setField ha₃ ha.aligned _ _ r.fixSize_lt, if_pos ⟨rfl, rfl⟩]
        have hu₄ : Unowned (setField (m₃.writeAll r.fix) r.croAddress .fixedSize r.fixSize) crs l
            r.croAddress r.croSize :=
          hu₂.congr fun k b hb => fixedSize_fixed h₂ hsame ha₃ hfixw r.fixSize_lt hb fun heq =>
            hfresh k (heq ▸ hb)
        obtain ⟨m', hload, h₅⟩ := registry_loadFixed h₄ rfl hle hend (by omega) hown hu₄ htail hprot
        refine ⟨m', .ok r.fixSize, ?_, h₅⟩
        rw [hreg]
        show some (RO.loadFixed _ r) = _
        rw [hload]

/-- Past its checks, `LoadCRO` maps the module. -/
theorem loadCRO_cases (r : LoadRequest) :
    (∃ e, s.loadCRO r = some (s, .error e)) ∨
      s.loadedCrs ≠ 0 ∧ ¬ r.croSize < croHeaderSize ∧ r.croAddress % pageSize = 0 ∧
        r.croSize % pageSize = 0 ∧ ¬ r.croAddress < processImageVaddr ∧
        ∃ m', mapBuffer s.memory r.croAddress r.croSize r.image r.map = .ok m' ∧
          s.loadCRO r = (RO.loadMapped m' s.loadedCrs r).map fun out =>
            ({ s with memory := out.1 }, out.2) := by
  unfold RO.loadCRO
  split
  · exact .inl ⟨_, rfl⟩
  · rename_i hcrs
    split
    · exact .inl ⟨_, rfl⟩
    · rename_i hsize
      split
      · exact .inl ⟨_, rfl⟩
      · split
        · exact .inl ⟨_, rfl⟩
        · rename_i hal
          split
          · exact .inl ⟨_, rfl⟩
          · rename_i hszal
            split
            · exact .inl ⟨_, rfl⟩
            · split
              · exact .inl ⟨_, rfl⟩
              · rename_i hrange
                split
                · exact .inl ⟨_, rfl⟩
                · split
                  · exact .inl ⟨_, rfl⟩
                  · rename_i m' hmap
                    refine .inr ⟨hcrs, hsize, not_not.mp hal, not_not.mp hszal,
                      fun hlt => hrange (.inl hlt), m', hmap, ?_⟩
                    cases RO.loadMapped m' s.loadedCrs r <;> rfl

theorem loadCRO_consistent (h : s.Consistent l) (hr : s.Regular l (.loadCRO r)) :
    ∃ s' result, s.loadCRO r = some (s', result) ∧
      s'.Consistent (if result.toBool then l.load r.croAddress r.autoLink else l) := by
  rcases loadCRO_cases (s := s) r with ⟨e, he⟩ | ⟨hcrs, hsize, hal, hszal, hrange, m', hmap, heq⟩
  · exact ⟨s, .error e, he, h⟩
  · obtain ⟨hwrites, hfix, hle, hexits⟩ := hr
    have hreg : Registry s.memory s.loadedCrs l := by
      unfold RO.Consistent at h
      rwa [if_neg hcrs] at h
    obtain ⟨rfl, hend, hfree⟩ := mapBuffer_ok hmap
    have hu := hreg.unowned_of_free (hfree hal hszal)
    have h0 : r.croAddress ≠ 0 := by
      intro h0
      rw [h0] at hrange
      exact hrange (by decide)
    have hmapped : ∀ page, inPages r.croAddress r.croSize page = true →
        (s.memory.map r.croAddress r.croSize r.image).mapped page = true := by
      intro page hp
      simp [PagedMemory.map, hp]
    have hsame : Unowned (s.memory.map r.croAddress r.croSize r.image) s.loadedCrs l
        r.croAddress r.croSize := by
      refine hu.congr fun k b hb => ?_
      obtain ⟨hbal, hpage⟩ := hreg.getField_of_page hu (.inr ⟨k, hb⟩)
      obtain ⟨hfp, hin⟩ := field_in_page hbal .fixedSize
      exact read32_map hin (hfp ▸ hpage)
    obtain ⟨m'', result, hload, hreg'⟩ := loadMapped_spec (hreg.map hu r.image)
      (hasHeader_map r.croAddress_lt hal hszal hsize) h0 hend hsame hmapped hwrites hfix hle hexits
    refine ⟨_, result, by rw [heq, hload]; rfl, ?_⟩
    unfold RO.Consistent
    rw [if_neg hcrs]
    exact hreg'

/-! ## UnloadCRO -/

theorem mem_unload (hl : (l.list k).Nodup) : b ∈ (l.unload a).list k ↔ b ∈ l.list k ∧ b ≠ a := by
  rw [Loaded.list_unload, hl.mem_erase_iff]
  exact and_comm

/-- A registry without a module, whose pages are then nobody's. -/
theorem Registry.unload (h : Registry m crs l) (ha : a ∈ l.list k)
    (hc : Chained m' crs (l.unload a)) (hsame : SameButLinks m m') :
    Registry m' crs (l.unload a) ∧
      Unowned m' crs (l.unload a) a (getField m a .fixedSize) := by
  have hmem : ∀ j, ∀ b ∈ (l.unload a).list j, b ∈ l.list j ∧ b ≠ a := by
    intro j b hb
    exact (mem_unload (h.chained.linked j).nodup).mp hb
  have hsize : ∀ j, ∀ b ∈ (l.unload a).list j,
      getField m' b .fixedSize = getField m b .fixedSize := by
    intro j b hb
    exact hsame.fixedSize b (h.chained.header j b (hmem j b hb).1).1.aligned
  have howns : ∀ j, ∀ b ∈ (l.unload a).list j, ∀ page, ownsPage m' b page = ownsPage m b page := by
    intro j b hb page
    unfold ownsPage
    rw [hsize j b hb]
  constructor
  · constructor
    case chained => exact hc
    case sized =>
      intro j b hb
      rw [hsize j b hb]
      exact h.sized j b (hmem j b hb).1
    case owned =>
      intro j b hb page hp
      rw [howns j b hb] at hp
      rw [hsame.mapped]
      exact h.owned j b (hmem j b hb).1 page hp
    case disjoint =>
      intro i j b hb c hc hbc page hp
      rw [howns i b hb] at hp
      rw [howns j c hc]
      exact h.disjoint i j b (hmem i b hb).1 c (hmem j c hc).1 hbc page hp
    case static =>
      intro j b hb
      rw [howns j b hb]
      exact h.static j b (hmem j b hb).1
  · refine ⟨h.static k a ha, ?_⟩
    intro j b hb page hp
    rw [howns j b hb] at hp
    exact h.disjoint j k b (hmem j b hb).1 a ha (hmem j b hb).2 page hp

/-- Unrebasing a module leaves the registry's fields of the others. -/
theorem getField_unrebase (ha : HasHeader m a) (hb : b % pageSize = 0) (hne : a ≠ b)
    {addresses : List Nat} (hmem : b ∈ addresses) {tables header : List (Nat × Byte)}
    (ht : Avoids addresses tables) (hh : Avoids addresses header) {f : HeaderField}
    (hf : f.inRegistry = true) :
    getField (Ldr.unrebase m a tables header) b f = getField m b f := by
  have ha₁ : HasHeader (m.writeAll tables) a := ha.of_mapped (by simp)
  have ha₂ : HasHeader (setNextModule (m.writeAll tables) a 0) a := ha₁.of_mapped (by simp)
  have ha₃ : HasHeader (setPreviousModule (setNextModule (m.writeAll tables) a 0) a 0) a :=
    ha₂.of_mapped (by simp)
  have hother : ∀ g : HeaderField, ¬ (a = b ∧ g = f) := fun g heq => hne heq.1
  unfold Ldr.unrebase
  rw [hh.getField hmem hf, getField_setField ha₃ hb _ _ (by decide), if_neg (hother _),
    setPreviousModule, getField_setField ha₂ hb _ _ (by decide), if_neg (hother _),
    setNextModule, getField_setField ha₁ hb _ _ (by decide), if_neg (hother _),
    ht.getField hmem hf]

theorem mapped_unrebase {tables header : List (Nat × Byte)} :
    (Ldr.unrebase m a tables header).mapped = m.mapped := by
  simp [Ldr.unrebase]

/-- Unrebasing a module that is on no list leaves the registry. -/
theorem Registry.unrebase (h : Registry m crs l) (ha : HasHeader m a) (hcrs : a ≠ crs)
    (hfresh : ∀ k, a ∉ l.list k) {tables header : List (Nat × Byte)}
    (ht : Avoids (crs :: l.all) tables) (hh : Avoids (crs :: l.all) header) :
    Registry (Ldr.unrebase m a tables header) crs l := by
  refine h.congr ?_ ?_ ?_
  · rintro b (rfl | ⟨k, hb⟩) f hf
    · exact getField_unrebase ha h.chained.static.aligned hcrs List.mem_cons_self ht hh hf
    · refine getField_unrebase ha (h.chained.header k b hb).1.aligned ?_ ?_ ht hh hf
      · rintro rfl
        exact hfresh k hb
      · exact List.mem_cons_of_mem _ (mem_all.mpr ⟨k, hb⟩)
  · rw [mapped_unrebase]
    exact h.chained.static.mapped
  · intro k b hb page hp
    rw [mapped_unrebase]
    exact h.owned k b hb page hp

theorem unloadUnregistered_spec (h : Registry m crs l) {r : UnloadRequest}
    (ha : HasHeader m r.croAddress) (hcrs : r.croAddress ≠ crs)
    (hfresh : ∀ k, r.croAddress ∉ l.list k) {fixedSize : Nat}
    (hu : Unowned m crs l r.croAddress fixedSize)
    (hwrites : Avoids (crs :: l.all)
      (r.unlink.writes ++ r.clearRelocations.writes ++ r.tables ++ r.header))
    (hunlink : r.unlink.error = none) (hclear : r.clearRelocations.error = none)
    (hunmap : r.unmap = none) :
    ∃ m', RO.unloadUnregistered m fixedSize r = (m', .ok ()) ∧ Registry m' crs l := by
  obtain ⟨hwrites, hheader⟩ := hwrites.append
  obtain ⟨hwrites, htables⟩ := hwrites.append
  obtain ⟨hul, hcl⟩ := hwrites.append
  have h₁ := h.writeAll hul
  have hu₁ := hu.writeAll hul
  have ha₁ : HasHeader (m.writeAll r.unlink.writes) r.croAddress := ha.of_mapped (by simp)
  obtain ⟨m₂, hm₂, h₂, hu₂, ha₂⟩ : ∃ m₂,
      (if isFixed (m.writeAll r.unlink.writes) r.croAddress then
          (m.writeAll r.unlink.writes, none)
        else ((m.writeAll r.unlink.writes).writeAll r.clearRelocations.writes,
          r.clearRelocations.error)) = (m₂, none) ∧
        Registry m₂ crs l ∧ Unowned m₂ crs l r.croAddress fixedSize ∧
        HasHeader m₂ r.croAddress := by
    split
    · exact ⟨_, rfl, h₁, hu₁, ha₁⟩
    · exact ⟨_, by rw [hclear], h₁.writeAll hcl, hu₁.writeAll hcl, ha₁.of_mapped (by simp)⟩
  have h₃ := h₂.unrebase ha₂ hcrs hfresh htables hheader
  have hu₃ : Unowned (Ldr.unrebase m₂ r.croAddress r.tables r.header) crs l r.croAddress
      fixedSize := by
    refine hu₂.congr fun k b hb => ?_
    refine getField_unrebase ha₂ (h₂.chained.header k b hb).1.aligned ?_ ?_ htables hheader rfl
    · rintro rfl
      exact hfresh k hb
    · exact List.mem_cons_of_mem _ (mem_all.mpr ⟨k, hb⟩)
  unfold RO.unloadUnregistered
  simp only [hunlink, hm₂, hunmap]
  exact ⟨_, rfl, h₃.unmap hu₃⟩

theorem unloadCRO_consistent (h : s.Consistent l) {r : UnloadRequest}
    (hr : s.Regular l (.unloadCRO r)) :
    ∃ s' result, s.unloadCRO r = some (s', result) ∧
      s'.Consistent (if result.toBool then l.unload r.croAddress else l) := by
  unfold RO.unloadCRO
  split
  · exact ⟨_, _, rfl, h⟩
  · rename_i hcrs
    split
    · exact ⟨_, _, rfl, h⟩
    · rename_i hal
      split
      · exact ⟨_, _, rfl, h⟩
      · rename_i hloaded
        have hacc : s.unloadAccepted r = true := by
          unfold RO.unloadAccepted
          simpa [hcrs, not_not.mp hal] using hloaded
        obtain ⟨hmem, hwrites, hunlink, hclear, hunmap⟩ := hr hacc
        obtain ⟨k, hmem⟩ := mem_all.mp hmem
        have hreg : Registry s.memory s.loadedCrs l := by
          unfold RO.Consistent at h
          rwa [if_neg hcrs] at h
        obtain ⟨ha, hac⟩ := hreg.chained.header k _ hmem
        obtain ⟨m₁, hm₁, hchain, hsame⟩ := unregister_spec hreg.chained hmem
        obtain ⟨hreg₁, hu⟩ := hreg.unload hmem hchain hsame
        have hfresh : ∀ j, r.croAddress ∉ (l.unload r.croAddress).list j := by
          intro j hj
          exact ((mem_unload (hreg.chained.linked j).nodup).mp hj).2 rfl
        have hsub : s.loadedCrs :: (l.unload r.croAddress).all ⊆ s.loadedCrs :: l.all := by
          refine List.cons_subset_cons _ fun b hb => ?_
          obtain ⟨j, hj⟩ := mem_all.mp hb
          exact mem_all.mpr ⟨j, ((mem_unload (hreg.chained.linked j).nodup).mp hj).1⟩
        obtain ⟨m₂, hm₂, hreg₂⟩ := unloadUnregistered_spec hreg₁ (ha.of_mapped hsame.mapped) hac
          hfresh hu (hwrites.subset hsub) hunlink hclear hunmap
        refine ⟨{ s with memory := m₂ }, .ok (), ?_, ?_⟩
        · simp only [hm₁, Option.bind_eq_bind, Option.bind_some, hm₂]
          rfl
        · unfold RO.Consistent
          rw [if_neg hcrs]
          exact hreg₂

/-! ## Runs -/

theorem step_consistent (h : s.Consistent l) {r : Request} (hr : s.Regular l r) :
    ∃ s' l', s.step l r = some (s', l') ∧ s'.Consistent l' := by
  cases r with
  | initializeService r => exact ⟨_, _, rfl, initialize_consistent h hr⟩
  | loadCRO r =>
    obtain ⟨s', result, hload, hc⟩ := loadCRO_consistent h hr
    exact ⟨s', _, by rw [RO.step, hload]; rfl, hc⟩
  | unloadCRO r =>
    obtain ⟨s', result, hunload, hc⟩ := unloadCRO_consistent h hr
    exact ⟨s', _, by rw [RO.step, hunload]; rfl, hc⟩
  | shutdown r => exact ⟨_, _, rfl, shutdown_consistent h hr⟩

theorem run_consistent {rs : List Request} (h : s.Consistent l) (hr : s.RegularRun l rs) :
    ∃ s' l', s.run l rs = some (s', l') ∧ s'.Consistent l' := by
  induction rs generalizing s l with
  | nil => exact ⟨s, l, rfl, h⟩
  | cons r rs ih =>
    obtain ⟨hr, hrs⟩ := hr
    obtain ⟨s₁, l₁, hstep, h₁⟩ := step_consistent h hr
    obtain ⟨s₂, l₂, hrun, h₂⟩ := ih h₁ (hrs s₁ l₁ hstep)
    refine ⟨s₂, l₂, ?_, h₂⟩
    rw [RO.run, hstep, Option.bind_some]
    exact hrun

/-- In a run of regular requests, from any memory, no assertion fails; while there is a static
module its two chains list the loaded modules in load order, and the modules are mapped. -/
theorem chains_of_run (m : PagedMemory) (rs : List Request)
    (hr : RO.RegularRun ⟨m, 0⟩ ⟨[], []⟩ rs) :
    ∃ s l, RO.run ⟨m, 0⟩ ⟨[], []⟩ rs = some (s, l) ∧
      (s.loadedCrs = 0 → l.all = []) ∧
      (s.loadedCrs ≠ 0 →
        Linked 0 (nextModule s.memory) (previousModule s.memory)
          (nextModule s.memory s.loadedCrs) l.autoLinked ∧
        Linked 0 (nextModule s.memory) (previousModule s.memory)
          (previousModule s.memory s.loadedCrs) l.others ∧
        ∀ a ∈ l.all, s.memory.mapped (a / pageSize) = true) := by
  have hstart : RO.Consistent ⟨m, 0⟩ ⟨[], []⟩ := by
    unfold RO.Consistent
    rw [if_pos rfl]
    rfl
  obtain ⟨s, l, hrun, h⟩ := run_consistent hstart hr
  unfold RO.Consistent at h
  refine ⟨s, l, hrun, ?_, ?_⟩
  · intro h0
    rwa [if_pos h0] at h
  · intro hcrs
    rw [if_neg hcrs] at h
    refine ⟨h.chained.linked true, h.chained.linked false, ?_⟩
    intro a ha
    obtain ⟨k, ha⟩ := mem_all.mp ha
    exact (h.chained.header k a ha).1.mapped

/-! ## A load that fails late -/

/-- A buffer with the header of a module that was never loaded. -/
def freshImage (offset : Nat) : Byte :=
  if offset = croHashSize then 0x43
  else if offset = croHashSize + 1 then 0x52
  else if offset = croHashSize + 2 then 0x4F
  else if offset = croHashSize + 3 then 0x30
  else 0

def emptyMemory : PagedMemory := ⟨fun _ => 0, fun _ => false⟩

def initializeRequest : InitializeRequest where
  crsBufferPtr := 0x08000000
  crsSize := 0x1000
  crsAddress := 0x00100000
  crsAddress_lt := by decide
  bufferState := true
  image := freshImage
  map := none
  rebase := ⟨[], none⟩

/-- The load of an auto-link module of one page. `reprotect` is the error of `ReprotectRange`. -/
def loadRequest (address : Nat) (hlt : address < 2 ^ 32) (reprotect : Option ErrorCode) :
    LoadRequest where
  croBufferPtr := 0x08001000
  croAddress := address
  croAddress_lt := hlt
  croSize := 0x1000
  zero := 0
  autoLink := true
  bufferState := true
  image := freshImage
  map := none
  rebase := ⟨[], none⟩
  link := ⟨[], none⟩
  fix := []
  fixSize := 0x1000
  fixSize_lt := by decide
  unmapTail := none
  reprotect := reprotect
  cleanup := none

/-- Two modules are loaded, and are on the chain. -/
theorem chains_of_run_two :
    ∃ s l, RO.run ⟨emptyMemory, 0⟩ ⟨[], []⟩
        [.initializeService initializeRequest,
          .loadCRO (loadRequest 0x00200000 (by decide) none),
          .loadCRO (loadRequest 0x00300000 (by decide) none)] = some (s, l) ∧
      (s.loadedCrs = 0 → l.all = []) ∧
      (s.loadedCrs ≠ 0 →
        Linked 0 (nextModule s.memory) (previousModule s.memory)
          (nextModule s.memory s.loadedCrs) l.autoLinked ∧
        Linked 0 (nextModule s.memory) (previousModule s.memory)
          (previousModule s.memory s.loadedCrs) l.others ∧
        ∀ a ∈ l.all, s.memory.mapped (a / pageSize) = true) := by
  have havoid : ∀ addresses, Avoids addresses [] := by
    intro addresses a _ f _ w hw
    cases hw
  have hload : ∀ (s : RO) (l : Loaded) (a : Nat) (hlt : a < 2 ^ 32),
      s.Regular l (.loadCRO (loadRequest a hlt none)) := by
    intro s l a hlt
    refine ⟨havoid _, Nat.le_refl 0x1000, Nat.le_refl 0x1000, ?_⟩
    intro _ _
    exact ⟨fun hne => absurd rfl hne, rfl⟩
  refine chains_of_run emptyMemory _ ⟨havoid _, ?_⟩
  intro s₁ l₁ _
  refine ⟨hload .., ?_⟩
  intro s₂ l₂ _
  exact ⟨hload .., fun _ _ _ => trivial⟩

/-- A load that fails when the code is made executable unmaps the module and leaves it on the
chain. -/
theorem failed_load_stays :
    ∃ s, RO.run ⟨emptyMemory, 0⟩ ⟨[], []⟩
        [.initializeService initializeRequest,
          .loadCRO (loadRequest 0x00200000 (by decide) (some (.kernel 0xE0E01BF5)))] =
          some (s, ⟨[], []⟩) ∧
      s.loadedCrs = 0x00100000 ∧
      nextModule s.memory s.loadedCrs = 0x00200000 ∧
      s.memory.mapped (0x00200000 / pageSize) = false ∧
      ¬ Linked 0 (nextModule s.memory) (previousModule s.memory)
        (nextModule s.memory s.loadedCrs) [] := by
  have heval : (RO.run ⟨emptyMemory, 0⟩ ⟨[], []⟩
      [.initializeService initializeRequest,
        .loadCRO (loadRequest 0x00200000 (by decide) (some (.kernel 0xE0E01BF5)))]).map
        (fun out => (out.1.loadedCrs, nextModule out.1.memory out.1.loadedCrs,
          out.1.memory.mapped (0x00200000 / pageSize), out.2)) =
      some (0x00100000, 0x00200000, false, ⟨[], []⟩) := by
    decide +kernel
  obtain ⟨⟨s, l⟩, hrun, hout⟩ := Option.map_eq_some_iff.mp heval
  simp only [Prod.mk.injEq] at hout
  obtain ⟨hcrs, hnext, hmapped, rfl⟩ := hout
  refine ⟨s, hrun, hcrs, hnext, hmapped, ?_⟩
  intro h
  have := h.head_eq
  rw [hnext] at this
  cases this

end GbaStation.Ldr
