import GbaStation.Paging.BlockAccess

/-!
# Scalar accesses beside block accesses (`core/memory.cpp`)

`Read` and `Write` look at the page of their first byte only and then `memcpy` the whole value,
while the block functions look at every page. The two agree exactly when the access does not reach
past memory that belongs to its pages (`AccessOk`):

- it stays in one page, or
- it crosses into the next page, and neither is mapped, or
- the two pages are backed by consecutive host memory, and the pointer of the first page does not
  bypass the rasterizer cache for bytes of the second.

`accesses_agree` says so for every page table, whatever memory holds and the GPU does, and has the
laws of the block functions beside it.
-/

namespace GbaStation.Paging

open Machine
open MemorySystem (exampleLayout)

variable {G : Type} {l : Layout} {r : Gpu G} {newer : G → Nat → Option Byte}
  {m m' : Machine G} {t : PageTable} {s : MemorySystem} {i p v n : Nat}

/-! ## What a scalar access does on a mapped page -/

theorem not_luma (hv : v < lumaAliasBit) (P : Prop) : ¬ (lumaAliasBit ≤ v ∧ P) :=
  fun h => absurd h.1 (by omega)

/-- A mapped page is read from where it lies after a flush and written after an invalidation, and a
plain one at once. -/
theorem access_mapped (ht : TableOk l (m.table i)) (hv : v < lumaAliasBit)
    (hb : backing l (m.table i) (v / pageSize) = some p) :
    Plain (m.table i) (v / pageSize) ∧
      m.read l r i n v = .ok (m, littleEndian (copyOut m.host (p + v % pageSize) n)) ∧
      (∀ value, m.write l r i n v value =
        .ok (m.copyFrom (p + v % pageSize) n (.buffer (bytesOf value)))) ∨
    ¬ Plain (m.table i) (v / pageSize) ∧
      ∃ ref, l.getPointerForRasterizerCache v = some ref ∧ ref.getPtr = p + v % pageSize ∧
        m.read l r i n v = .ok (m.rasterizerFlushVirtualRegion l r v n .flush,
          littleEndian (copyOut (m.rasterizerFlushVirtualRegion l r v n .flush).host
            (p + v % pageSize) n)) ∧
        ∀ value, m.write l r i n v value =
          .ok ((m.rasterizerFlushVirtualRegion l r v n .invalidate).copyFrom (p + v % pageSize) n
            (.buffer (bytesOf value))) := by
  unfold Machine.read Machine.write
  cases ht.pageCase (v / pageSize) with
  | unmapped htype =>
    rw [backing, htype] at hb
    cases hb
  | memory ref htype hpointer hb' =>
    obtain rfl := Option.some.inj (hb'.symm.trans hb)
    rw [hpointer]
    exact .inl ⟨.inl htype, rfl, fun _ => rfl⟩
  | watchpoint count ref htype hpointer hinfo hb' =>
    obtain rfl := Option.some.inj (hb'.symm.trans hb)
    simp only [hpointer, if_neg (not_luma hv _), readSlow, writeSlow, htype, hinfo]
    exact .inl ⟨.inr htype, trivial, fun _ => rfl⟩
  | cached ref htype hpointer hcached hb' =>
    obtain rfl := Option.some.inj (hb'.symm.trans hb)
    obtain ⟨ref', href', hptr⟩ := pointer_offset hcached (Nat.mod_lt v (by decide : 0 < pageSize))
    rw [Nat.div_add_mod'] at href'
    refine .inr ⟨?_, ref', href', hptr, ?_⟩
    · rcases htype with htype | htype <;> simp [Plain, htype]
    · rw [hpointer, ← hptr]
      simp only [if_neg (not_luma hv _), readSlow, writeSlow]
      rcases htype with htype | htype <;> simp only [htype, href'] <;> exact ⟨trivial, fun _ => rfl⟩

theorem access_unmapped (ht : TableOk l (m.table i)) (hv : v < lumaAliasBit)
    (hu : (m.table i).attributes (v / pageSize) = .unmapped) :
    m.read l r i n v = .ok (m, 0) ∧ ∀ value, m.write l r i n v value = .ok m := by
  unfold Machine.read Machine.write
  cases hp : (m.table i).pointers (v / pageSize) with
  | some ref =>
    have := (ht.pointer (v / pageSize)).mp (by rw [hp]; rfl)
    rw [hu] at this
    cases this
  | none => simp only [if_neg (not_luma hv _), readSlow, writeSlow, hu, implies_true, and_self]

/-! ## Accesses to consecutive memory -/

/-- Where the bytes of an access lie one after the other, nothing newer is held of them once the
rasterizer-cached ones are settled. -/
theorem newer_none {D : Nat → Prop} (h : Coherent l newer m)
    (hs : Settles l newer (CacheRange l v n) D m m') (hn : n ≤ pageSize)
    (hcont : ∀ j, j < n → hostAddr l (m.table i) (v + j) = some (p + j)) {ref : HostRef}
    (hv : l.getPointerForRasterizerCache v = some ref) (hp : ref.getPtr = p) {j : Nat}
    (hj : j < n) : newer m'.gpu (p + j) = none := by
  cases hc : l.getPointerForRasterizerCache (v + j) with
  | some ref' =>
    refine hs.settled _ ⟨j, hj, ref', hc, ?_⟩
    rw [pointer_add hv hc (by omega), hp]
  | none =>
    -- a mapped page outside of the cached regions is plain
    have hplain : Plain (m.table i) ((v + j) / pageSize) := by
      cases (h.table i).pageCase ((v + j) / pageSize) with
      | unmapped htype =>
        have hm := hcont j hj
        rw [hostAddr, backing, htype] at hm
        cases hm
      | memory _ htype => exact .inl htype
      | watchpoint _ _ htype => exact .inr htype
      | cached ref' _ _ hcached =>
        obtain ⟨ref'', href'', -⟩ :=
          pointer_offset hcached (Nat.mod_lt (v + j) (by decide : 0 < pageSize))
        rw [Nat.div_add_mod', hc] at href''
        cases href''
    have hnone := h.of_plain hplain (hcont j hj)
    rcases hs.fewer (p + j) with hf | hf
    · exact hf
    · exact hf.trans hnone

/-- The cached bytes of an access to consecutive memory are among its bytes. -/
theorem of_cacheRange {a : Nat} {ref : HostRef} (hn : n ≤ pageSize)
    (hv : l.getPointerForRasterizerCache v = some ref) (h : CacheRange l v n a) :
    ref.getPtr ≤ a ∧ a < ref.getPtr + n := by
  obtain ⟨j, hj, ref', href', rfl⟩ := h
  have := pointer_add hv href' (by omega)
  omega

theorem backing_of_hostAddr (hm : hostAddr l t v = some p) :
    ∃ q, backing l t (v / pageSize) = some q ∧ q + v % pageSize = p := by
  exact Option.map_eq_some_iff.mp hm

theorem read_consecutive (hr : LawfulGpu l newer r) (h : Coherent l newer m)
    (hv : v + n ≤ lumaAliasBit) (hn : n ≤ pageSize) (hpos : 0 < n)
    (hcont : ∀ j, j < n → hostAddr l (m.table i) (v + j) = some (p + j))
    (hplain : Plain (m.table i) (v / pageSize) → ∀ j, j < n → newer m.gpu (p + j) = none) :
    ∃ m', m.read l r i n v =
      .ok (m', littleEndian ((List.range n).map fun j => seen l newer m i (v + j))) := by
  obtain ⟨q, hq, hqp⟩ := backing_of_hostAddr (hcont 0 hpos)
  rw [Nat.add_zero] at hq hqp
  have hcase := access_mapped (r := r) (n := n) (h.table i) (by omega) hq
  rw [hqp, Nat.add_zero] at hcase
  rcases hcase with ⟨hp, hread, -⟩ | ⟨-, ref, href, hptr, hread, -⟩
  all_goals
    refine ⟨_, hread.trans (congrArg (fun bytes => Except.ok (_, littleEndian bytes)) ?_)⟩
    refine copyOut_eq_seen fun j hj => ⟨_, hcont j hj, rfl, ?_⟩
  · exact (view_of_none (hplain hp j hj)).symm
  · have hs := settles_flushVirtualRegion hr h .flush (by decide)
      (show v + n < 2 ^ 32 by unfold lumaAliasBit at hv; omega)
    have hseen := hs.seen (p + j) fun hd => nomatch hd.1
    exact (view_of_none (newer_none h hs hn hcont href (by omega) hj)).symm.trans hseen

theorem write_consecutive (hr : LawfulGpu l newer r) (h : Coherent l newer m)
    (hv : v + n ≤ lumaAliasBit) (hn : n ≤ pageSize) (hpos : 0 < n)
    (hcont : ∀ j, j < n → hostAddr l (m.table i) (v + j) = some (p + j))
    (hplain : Plain (m.table i) (v / pageSize) → ∀ j, j < n → newer m.gpu (p + j) = none)
    (value : Nat) :
    ∃ m', m.write l r i n v value = .ok m' ∧
      Wrote l newer m m' (overlay (fun j => hostAddr l (m.table i) (v + j)) (bytesOf value) n
        (view newer m)) := by
  obtain ⟨q, hq, hqp⟩ := backing_of_hostAddr (hcont 0 hpos)
  rw [Nat.add_zero] at hq hqp
  have hcase := access_mapped (r := r) (n := n) (h.table i) (by omega) hq
  rw [hqp, Nat.add_zero] at hcase
  rw [overlay_block hcont]
  rcases hcase with ⟨hp, -, hwrite⟩ | ⟨-, ref, href, hptr, -, hwrite⟩ <;>
    refine ⟨_, hwrite value, ?_⟩
  · refine wrote_copyFrom h _ fun a hge hlt => ?_
    obtain ⟨j, rfl⟩ := Nat.exists_eq_add_of_le hge
    exact hplain hp j (by omega)
  · have hs := settles_flushVirtualRegion hr h .invalidate (by decide)
      (show v + n < 2 ^ 32 by unfold lumaAliasBit at hv; omega)
    refine wrote_settled _ hs (fun a hge hlt => ?_) fun a ha => ?_
    · obtain ⟨j, rfl⟩ := Nat.exists_eq_add_of_le hge
      exact newer_none h hs hn hcont href (by omega) (by omega)
    · have := of_cacheRange hn href ha.2
      omega

/-! ## A rasterizer cache -/

instance (l : Layout) (paddr size a : Nat) : Decidable (l.HostRange paddr size a) :=
  inferInstanceAs (Decidable (∃ j, j < size ∧ l.hostOfPaddr (paddr + j) = some a))

/-- A GPU that holds newer bytes of some addresses, and flushes and drops exactly what it is asked
to. It never uncaches a page. -/
def preciseGpu (l : Layout) : Gpu (Nat → Option Byte) where
  flushRegion paddr size m :=
    { m with
      host := fun a => if l.HostRange paddr size a then (m.gpu a).getD (m.host a) else m.host a
      gpu := fun a => if l.HostRange paddr size a then none else m.gpu a }
  invalidateRegion paddr size m :=
    { m with gpu := fun a => if l.HostRange paddr size a then none else m.gpu a }
  flushAndInvalidateRegion paddr size m :=
    { m with
      host := fun a => if l.HostRange paddr size a then (m.gpu a).getD (m.host a) else m.host a
      gpu := fun a => if l.HostRange paddr size a then none else m.gpu a }
  readReg _ m := (m, 0)
  writeReg _ _ m := m

theorem lawful_preciseGpu (l : Layout) : LawfulGpu l (fun g => g) (preciseGpu l) where
  flush p n m h :=
    { coherent := by
        refine ⟨h.tables, fun a ha => ?_⟩
        simp only [preciseGpu, h.plain a ha, ite_self]
      tables := List.forall₂_same.mpr fun t _ => Uncached.refl l t
      fewer a := by
        by_cases ha : l.HostRange p n a
        · exact .inl (if_pos ha)
        · exact .inr (if_neg ha)
      settled a ha := if_pos ha
      seen a _ := by
        by_cases ha : l.HostRange p n a <;> simp [view, preciseGpu, ha] }
  invalidate p n m h :=
    { coherent := by
        refine ⟨h.tables, fun a ha => ?_⟩
        simp only [preciseGpu, h.plain a ha, ite_self]
      tables := List.forall₂_same.mpr fun t _ => Uncached.refl l t
      fewer a := by
        by_cases ha : l.HostRange p n a
        · exact .inl (if_pos ha)
        · exact .inr (if_neg ha)
      settled a ha := if_pos ha
      seen a ha := by simp [view, preciseGpu, ha] }

/-- With nothing held, a flush does nothing. -/
theorem preciseGpu_flush_none {m : Machine (Nat → Option Byte)} (hg : m.gpu = fun _ => none)
    (v n : Nat) : m.rasterizerFlushVirtualRegion l (preciseGpu l) v n .flush = m := by
  have hflush : ∀ paddr size, (preciseGpu l).flushRegion paddr size m = m := by
    intro paddr size
    obtain ⟨system, host, gpu⟩ := m
    subst hg
    simp [preciseGpu]
  have hcheck : ∀ a b c, m.checkRegion (preciseGpu l) v n .flush a b c = m := by
    intro a b c
    unfold Machine.checkRegion
    simp only
    split_ifs
    · rfl
    · exact hflush _ _
  unfold rasterizerFlushVirtualRegion
  simp only [hcheck, ite_self]

/-! ## Agreement -/

/-- The scalar access of `n` bytes does what the block access does, whatever memory holds and the
GPU does: it reads the little-endian value of the bytes, and leaves memory the same. -/
def ScalarAgrees (l : Layout) (s : MemorySystem) (i v n : Nat) : Prop :=
  ∀ (G : Type) (r : Gpu G) (newer : G → Nat → Option Byte), LawfulGpu l newer r →
    ∀ m : Machine G, m.system = s → Coherent l newer m →
      (∃ m₁ m₂ value bytes, m.read l r i n v = .ok (m₁, value) ∧
        m.readBlock l r i v n = .ok (m₂, bytes) ∧ value = littleEndian bytes) ∧
      ∀ value, ∃ m₁ m₂, m.write l r i n v value = .ok m₁ ∧
        m.writeBlock l r i v n (.buffer (bytesOf value)) = .ok m₂ ∧
        (∀ j, hostAddr l (m₁.table j) = hostAddr l (m₂.table j)) ∧
        ∀ a, view newer m₁ a = view newer m₂ a

/-- An access that does not reach past the memory of its pages. -/
def AccessOk (l : Layout) (s : MemorySystem) (t : PageTable) (v n : Nat) : Prop :=
  v % pageSize + n ≤ pageSize ∨
  (t.attributes (v / pageSize) = .unmapped ∧ t.attributes (v / pageSize + 1) = .unmapped) ∨
  ∃ p, backing l t (v / pageSize) = some p ∧
    backing l t (v / pageSize + 1) = some (p + pageSize) ∧
    (Plain t (v / pageSize) → ∀ j, j < n → OnPlainPage l s (p + v % pageSize + j))

/-- The page and the offset of a byte of an access that may reach into the next page. -/
theorem page_of_byte (v : Nat) {j n : Nat} (hn : n ≤ pageSize) (hj : j < n) :
    (v + j) / pageSize = v / pageSize ∧ (v + j) % pageSize = v % pageSize + j ∨
    pageSize ≤ v % pageSize + j ∧ (v + j) / pageSize = v / pageSize + 1 ∧
      (v + j) % pageSize + pageSize = v % pageSize + j := by
  unfold pageSize at *
  omega

theorem littleEndian_zeros : ∀ n : Nat, littleEndian (List.replicate n 0) = 0
  | 0 => rfl
  | n + 1 => by
    rw [List.replicate_succ, littleEndian, littleEndian_zeros n]
    rfl

/-- Where the bytes lie one after the other and may be read directly, the accesses agree. -/
theorem agrees_consecutive (hn : n ≤ pageSize) (hpos : 0 < n) (hv : v + n ≤ lumaAliasBit)
    {t : PageTable} (ht : ∀ {G : Type} {m : Machine G}, m.system = s → m.table i = t)
    (hcont : ∀ j, j < n → hostAddr l t (v + j) = some (p + j))
    (hplain : Plain t (v / pageSize) → ∀ j, j < n → OnPlainPage l s (p + j)) :
    ScalarAgrees l s i v n := by
  intro G r newer hr m hm h
  subst hm
  obtain rfl := ht (m := m) rfl
  have hnone : Plain (m.table i) (v / pageSize) → ∀ j, j < n → newer m.gpu (p + j) = none :=
    fun hp j hj => h.plain _ (hplain hp j hj)
  constructor
  · obtain ⟨m₁, hread⟩ := read_consecutive hr h hv hn hpos hcont hnone
    obtain ⟨m₂, hblock, -⟩ := readBlock_spec hr h i v n
    exact ⟨m₁, m₂, _, _, hread, hblock, rfl⟩
  · intro value
    obtain ⟨m₁, hwrite, hw₁⟩ := write_consecutive hr h hv hn hpos hcont hnone value
    obtain ⟨m₂, hblock, hw₂⟩ := writeBlock_buffer hr h i v n (bytesOf value)
    refine ⟨m₁, m₂, hwrite, hblock, fun j => ?_, fun a => ?_⟩
    · rw [hostAddr_uncached (hw₁.tables j), hostAddr_uncached (hw₂.tables j)]
    · rw [hw₁.seen, hw₂.seen]

/-- Where no byte is mapped, neither access does anything. -/
theorem agrees_unmapped (hpos : 0 < n) (hv : v + n ≤ lumaAliasBit)
    {t : PageTable} (ht : ∀ {G : Type} {m : Machine G}, m.system = s → m.table i = t)
    (hu : ∀ j, j < n → t.attributes ((v + j) / pageSize) = .unmapped) :
    ScalarAgrees l s i v n := by
  intro G r newer hr m hm h
  subst hm
  obtain rfl := ht (m := m) rfl
  have hu₀ := hu 0 hpos
  have hnone : ∀ j, j < n → hostAddr l (m.table i) (v + j) = none := by
    intro j hj
    rw [hostAddr, backing, hu j hj]
    rfl
  constructor
  · obtain ⟨m₂, hblock, -⟩ := readBlock_spec hr h i v n
    refine ⟨m, m₂, 0, _, (access_unmapped (h.table i) (by omega) hu₀).1, hblock, ?_⟩
    rw [← littleEndian_zeros n]
    congr 1
    refine (List.eq_replicate_iff.mpr ⟨by simp, fun b hb => ?_⟩).symm
    obtain ⟨j, hj, rfl⟩ := List.mem_map.mp hb
    rw [seen, hnone j (List.mem_range.mp hj)]
  · intro value
    obtain ⟨m₂, hblock, hw₂⟩ := writeBlock_buffer hr h i v n (bytesOf value)
    rw [overlay_none hnone] at hw₂
    refine ⟨m, m₂, (access_unmapped (h.table i) (by omega) hu₀).2 value, hblock, fun j => ?_,
      fun a => ?_⟩
    · rw [hostAddr_uncached (hw₂.tables j)]
    · rw [hw₂.seen]

theorem agrees_of_accessOk (hs : ∀ t ∈ s.pageTableList, TableOk l t) (hn : n ≤ pageSize)
    (hpos : 0 < n) (hv : v + n ≤ lumaAliasBit)
    (h : AccessOk l s (s.pageTableList.getD i {}) v n) : ScalarAgrees l s i v n := by
  have ht : ∀ {G : Type} {m : Machine G}, m.system = s →
      m.table i = s.pageTableList.getD i {} := by
    rintro G m rfl
    rfl
  have hpage := fun j hj => page_of_byte v (j := j) hn hj
  rcases h with hin | ⟨hu₁, hu₂⟩ | ⟨p, hb₁, hb₂, hplain⟩
  · -- one page
    have hsame : ∀ j, j < n → (v + j) / pageSize = v / pageSize ∧
        (v + j) % pageSize = v % pageSize + j := by
      intro j hj
      have := hpage j hj
      omega
    cases hb : backing l (s.pageTableList.getD i {}) (v / pageSize) with
    | none =>
      refine agrees_unmapped hpos hv ht fun j hj => ?_
      rw [(hsame j hj).1]
      by_contra hne
      have := (tableOk_getD hs i).backing _ hne
      rw [hb] at this
      cases this
    | some p =>
      have hcont : ∀ j, j < n →
          hostAddr l (s.pageTableList.getD i {}) (v + j) = some (p + v % pageSize + j) := by
        intro j hj
        rw [hostAddr, (hsame j hj).1, (hsame j hj).2, hb, Option.map_some, Nat.add_assoc]
      refine agrees_consecutive hn hpos hv ht hcont fun hp j hj => ?_
      refine ⟨s.pageTableList.getD i {}, ?_, v / pageSize, p, hp, hb, by omega, by omega⟩
      rw [List.getD_eq_getElem?_getD] at hb ⊢
      cases hi : s.pageTableList[i]? with
      | none =>
        rw [hi] at hb
        cases hb
      | some t => exact List.mem_of_getElem? hi
  · refine agrees_unmapped hpos hv ht fun j hj => ?_
    rcases hpage j hj with ⟨heq, -⟩ | ⟨-, heq, -⟩ <;> rw [heq] <;> assumption
  · refine agrees_consecutive hn hpos hv ht (fun j hj => ?_) hplain
    rcases hpage j hj with ⟨heq, hoff⟩ | ⟨hge, heq, hoff⟩
    · rw [hostAddr, heq, hoff, hb₁, Option.map_some, Nat.add_assoc]
    · rw [hostAddr, heq, hb₂, Option.map_some]
      congr 1
      omega

/-- Accesses that agree read the same bytes. -/
theorem bytes_of_agrees (h : ScalarAgrees l s i v n) {m m' : Machine (Nat → Option Byte)}
    (hm : m.system = s) (hc : Coherent l (fun g => g) m) {bytes : Nat → Byte}
    (hread : m.read l (preciseGpu l) i n v =
      .ok (m', littleEndian ((List.range n).map bytes))) {j : Nat} (hj : j < n) :
    bytes j = seen l (fun g => g) m i (v + j) := by
  obtain ⟨⟨m₁, m₂, value, block, hscalar, hblock, hvalue⟩, -⟩ :=
    h _ _ _ (lawful_preciseGpu l) m hm hc
  obtain ⟨m₃, hspec, -⟩ := readBlock_spec (lawful_preciseGpu l) hc i v n
  rw [hread, Except.ok.injEq, Prod.mk.injEq] at hscalar
  rw [hblock, Except.ok.injEq, Prod.mk.injEq] at hspec
  rw [← hscalar.2, hspec.2] at hvalue
  have heq := littleEndian_inj (by simp) hvalue
  exact List.map_inj_left.mp heq j (List.mem_range.mpr hj)

theorem accessOk_of_agrees (hs : ∀ t ∈ s.pageTableList, TableOk l t) (hn : n ≤ pageSize)
    (hpos : 0 < n) (hv : v + n ≤ lumaAliasBit) (h : ScalarAgrees l s i v n) :
    AccessOk l s (s.pageTableList.getD i {}) v n := by
  by_contra hbad
  simp only [AccessOk, not_or] at hbad
  obtain ⟨hcross, hmapped, hcons⟩ := hbad
  have ht := tableOk_getD hs i
  have hmod := Nat.mod_lt v (by decide : 0 < pageSize)
  -- the first byte of the second page
  obtain ⟨k, hk⟩ : ∃ k, v % pageSize + k = pageSize := ⟨pageSize - v % pageSize, by omega⟩
  have hkn : k < n := by omega
  have hpage : (v + k) / pageSize = v / pageSize + 1 ∧ (v + k) % pageSize = 0 := by
    have := page_of_byte v hn hkn
    have := Nat.mod_lt (v + k) (by decide : 0 < pageSize)
    omega
  have haddr : hostAddr l (s.pageTableList.getD i {}) (v + k) =
      backing l (s.pageTableList.getD i {}) (v / pageSize + 1) := by
    rw [hostAddr, hpage.1, hpage.2]
    simp
  have hunmapped : ∀ page, backing l (s.pageTableList.getD i {}) page = none →
      (s.pageTableList.getD i {}).attributes page = .unmapped := by
    intro page hb
    by_contra hne
    have := ht.backing page hne
    rw [hb] at this
    cases this
  -- with nothing held by the GPU, a mapped page is read as it lies in host memory
  have hclean : ∀ host : Nat → Byte,
      Coherent l (fun g => g) (⟨s, host, fun _ => none⟩ : Machine (Nat → Option Byte)) :=
    fun host => ⟨hs, fun _ _ => rfl⟩
  have hread : ∀ host p, backing l (s.pageTableList.getD i {}) (v / pageSize) = some p →
      ∃ m', Machine.read l (preciseGpu l) i n v ⟨s, host, fun _ => none⟩ =
        .ok (m', littleEndian ((List.range n).map fun j => host (p + v % pageSize + j))) := by
    intro host p hb
    rcases access_mapped (r := preciseGpu l) (n := n) (m := ⟨s, host, fun _ => none⟩) ht (by omega)
      hb with ⟨-, hm', -⟩ | ⟨-, -, -, -, hm', -⟩
    · exact ⟨_, hm'⟩
    · rw [preciseGpu_flush_none rfl] at hm'
      exact ⟨_, hm'⟩
  cases hb₁ : backing l (s.pageTableList.getD i {}) (v / pageSize) with
  | none =>
    -- the second page is mapped, and the scalar read does not see it
    cases hb₂ : backing l (s.pageTableList.getD i {}) (v / pageSize + 1) with
    | none => exact hmapped ⟨hunmapped _ hb₁, hunmapped _ hb₂⟩
    | some p₂ =>
      have hzero : Machine.read l (preciseGpu l) i n v ⟨s, fun _ => 1, fun _ => none⟩ =
          .ok (⟨s, fun _ => 1, fun _ => none⟩, littleEndian ((List.range n).map fun _ => 0)) := by
        rw [List.map_const', List.length_range, littleEndian_zeros]
        exact (access_unmapped (m := ⟨s, _, _⟩) ht (by omega) (hunmapped _ hb₁)).1
      have hbyte := bytes_of_agrees h rfl (hclean fun _ => 1) hzero hkn
      rw [seen_eq (haddr.trans hb₂)] at hbyte
      simp [view] at hbyte
  | some p₁ =>
    cases hb₂ : backing l (s.pageTableList.getD i {}) (v / pageSize + 1) with
    | none =>
      -- the scalar read goes on behind the first page
      obtain ⟨m', hm'⟩ := hread (fun _ => 1) p₁ hb₁
      have hbyte := bytes_of_agrees h rfl (hclean fun _ => 1) hm' hkn
      have hnone : hostAddr l (Machine.table (⟨s, fun _ => 1, fun _ => none⟩ :
          Machine (Nat → Option Byte)) i) (v + k) = none := haddr.trans hb₂
      rw [seen, hnone] at hbyte
      simp at hbyte
    | some p₂ =>
      by_cases hnext : p₂ = p₁ + pageSize
      · -- what the GPU holds of the second page is not flushed
        subst hnext
        have hplain : Plain (s.pageTableList.getD i {}) (v / pageSize) ∧
            ∃ j, j < n ∧ ¬ OnPlainPage l s (p₁ + v % pageSize + j) := by
          by_contra hall
          refine hcons ⟨p₁, hb₁, hb₂, fun hp j hj => ?_⟩
          by_contra hno
          exact hall ⟨hp, j, hj, hno⟩
        obtain ⟨hp, j, hj, hno⟩ := hplain
        have hc : Coherent l (fun g => g) (⟨s, fun _ => 0, fun a =>
            if a = p₁ + v % pageSize + j then some 1 else none⟩ : Machine (Nat → Option Byte)) := by
          refine ⟨hs, fun a ha => if_neg ?_⟩
          rintro rfl
          exact hno ha
        rcases access_mapped (r := preciseGpu l) (n := n)
          (m := ⟨s, fun _ => 0, fun a => if a = p₁ + v % pageSize + j then some 1 else none⟩)
          ht (by omega) hb₁ with ⟨-, hm', -⟩ | ⟨hnp, -⟩
        · have hzero : Machine.read l (preciseGpu l) i n v _ =
              .ok (_, littleEndian ((List.range n).map fun _ => 0)) := hm'
          have hbyte := bytes_of_agrees h rfl hc hzero hj
          have haddr' : hostAddr l (s.pageTableList.getD i {}) (v + j) =
              some (p₁ + v % pageSize + j) := by
            rcases page_of_byte v hn hj with ⟨heq, hoff⟩ | ⟨hge, heq, hoff⟩
            · rw [hostAddr, heq, hoff, hb₁, Option.map_some, Nat.add_assoc]
            · rw [hostAddr, heq, hb₂, Option.map_some]
              congr 1
              omega
          rw [seen_eq haddr'] at hbyte
          simp [view] at hbyte
        · exact hnp hp
      · -- the second page lies elsewhere
        obtain ⟨m', hm'⟩ := hread (fun a => if a = p₁ + pageSize then 1 else 0) p₁ hb₁
        have hbyte := bytes_of_agrees h rfl (hclean _) hm' hkn
        rw [seen_eq (haddr.trans hb₂)] at hbyte
        simp [view, hnext, Nat.add_assoc, hk] at hbyte

/-! ## The result -/

/-- No two pages have memory in common. -/
def DistinctBacking (l : Layout) (t : PageTable) : Prop :=
  ∀ page page' p p', page ≠ page' → backing l t page = some p → backing l t page' = some p' →
    p + pageSize ≤ p' ∨ p' + pageSize ≤ p

theorem DistinctBacking.inj (h : DistinctBacking l t) {v w a : Nat}
    (hv : hostAddr l t v = some a) (hw : hostAddr l t w = some a) : v = w := by
  obtain ⟨p, hp, hpa⟩ := backing_of_hostAddr hv
  obtain ⟨q, hq, hqa⟩ := backing_of_hostAddr hw
  have hmv := Nat.mod_lt v (by decide : 0 < pageSize)
  have hmw := Nat.mod_lt w (by decide : 0 < pageSize)
  have hpage : v / pageSize = w / pageSize := by
    by_contra hne
    have := h _ _ p q hne hp hq
    omega
  rw [hpage, hq] at hp
  obtain rfl := Option.some.inj hp
  rw [← Nat.div_add_mod' v pageSize, ← Nat.div_add_mod' w pageSize, hpage]
  omega

/-- What is written to a range is read back from it, wherever it is mapped. -/
theorem readBlock_writeBlock (hr : LawfulGpu l newer r) (h : Coherent l newer m) {addr size : Nat}
    (bytes : Nat → Byte) (hd : DistinctBacking l (m.table i)) :
    ∃ m₁ m₂ out, m.writeBlock l r i addr size (.buffer bytes) = .ok m₁ ∧
      m₁.readBlock l r i addr size = .ok (m₂, out) ∧
      ∀ j, j < size → (m.table i).attributes ((addr + j) / pageSize) ≠ .unmapped →
        out[j]? = some (bytes j) := by
  obtain ⟨m₁, hwrite, hw⟩ := writeBlock_buffer hr h i addr size bytes
  obtain ⟨m₂, hread, -⟩ := readBlock_spec hr hw.coherent i addr size
  refine ⟨m₁, m₂, _, hwrite, hread, fun j hj hmapped => ?_⟩
  obtain ⟨p, hp⟩ := Option.isSome_iff_exists.mp ((h.table i).backing _ hmapped)
  have haddr : hostAddr l (m.table i) (addr + j) = some (p + (addr + j) % pageSize) := by
    rw [hostAddr, hp, Option.map_some]
  rw [List.getElem?_map, List.getElem?_range hj, Option.map_some]
  refine congrArg some ?_
  rw [seen_eq ((congrFun (hostAddr_uncached (hw.tables i)) (addr + j)).trans haddr), hw.seen]
  refine overlay_at hj haddr fun k hk hsame => ?_
  have := hd.inj haddr hsame
  omega

/-- `CopyBlock` does what `ReadBlock` and then `WriteBlock` do. -/
theorem copyBlock_eq (hr : LawfulGpu l newer r) (h : Coherent l newer m)
    {dest source target addr size : Nat} (htarget : target + size ≤ 2 ^ 32)
    (hsep : ∀ j, j < size → ∀ k, k < size → ∀ a, hostAddr l (m.table source) (addr + j) = some a →
      hostAddr l (m.table dest) (target + k) ≠ some a) :
    ∃ m₁ m₂ m₃ out, m.copyBlock l r dest source target addr size = .ok m₁ ∧
      m.readBlock l r source addr size = .ok (m₂, out) ∧
      m₂.writeBlock l r dest target size (.buffer fun j => out.getD j 0) = .ok m₃ ∧
      (∀ j, hostAddr l (m₁.table j) = hostAddr l (m₃.table j)) ∧
      ∀ a, view newer m₁ a = view newer m₃ a := by
  obtain ⟨m₁, hcopy, hw₁⟩ := copyBlock_spec hr h htarget hsep
  obtain ⟨m₂, hread, hs⟩ := readBlock_spec hr h source addr size
  obtain ⟨m₃, hwrite, hw₃⟩ := writeBlock_buffer hr hs.coherent dest target size fun j =>
    ((List.range size).map fun j => seen l newer m source (addr + j)).getD j 0
  refine ⟨m₁, m₂, m₃, _, hcopy, hread, hwrite, fun j => ?_, fun a => ?_⟩
  · rw [hostAddr_uncached (hw₁.tables j), hostAddr_uncached (hw₃.tables j), hs.hostAddr]
  · rw [hw₁.seen, hw₃.seen, hs.hostAddr, funext fun a => hs.seen a id]
    refine congrFun (overlay_congr (fun _ _ => rfl) fun j hj => ?_) a
    rw [List.getD_eq_getElem?_getD, List.getElem?_map, List.getElem?_range hj]
    rfl

/-- **Scalar and block accesses.** For every page table of every memory system, a scalar access
agrees with the block access exactly when it is `AccessOk`. The block accesses keep their laws
beside any GPU: what is written is read back, `ZeroBlock` writes zeros, and `CopyBlock` between
ranges with separate memory reads and then writes. -/
theorem accesses_agree (l : Layout) (s : MemorySystem) (i : Nat)
    (hs : ∀ t ∈ s.pageTableList, TableOk l t) :
    (∀ v n, n = 1 ∨ n = 2 ∨ n = 4 ∨ n = 8 → v + 8 ≤ 0x80000000 →
      (ScalarAgrees l s i v n ↔ AccessOk l s (s.pageTableList.getD i {}) v n)) ∧
    ∀ (G : Type) (r : Gpu G) (newer : G → Nat → Option Byte), LawfulGpu l newer r →
      ∀ m : Machine G, m.system = s → Coherent l newer m →
      (∀ addr size bytes, addr + size ≤ 2 ^ 32 → DistinctBacking l (m.table i) →
        ∃ m₁ m₂ out, m.writeBlock l r i addr size (.buffer bytes) = .ok m₁ ∧
          m₁.readBlock l r i addr size = .ok (m₂, out) ∧
          ∀ j, j < size → (m.table i).attributes ((addr + j) / pageSize) ≠ .unmapped →
            out[j]? = some (bytes j)) ∧
      (∀ addr size, addr + size ≤ 2 ^ 32 → m.zeroBlock l r i addr size =
        m.writeBlock l r i addr size (.buffer fun _ => 0)) ∧
      ∀ dest source target addr size, addr + size ≤ 2 ^ 32 → target + size ≤ 2 ^ 32 →
        (∀ j, j < size → ∀ k, k < size → ∀ a,
          hostAddr l (m.table source) (addr + j) = some a →
          hostAddr l (m.table dest) (target + k) ≠ some a) →
        ∃ m₁ m₂ m₃ out, m.copyBlock l r dest source target addr size = .ok m₁ ∧
          m.readBlock l r source addr size = .ok (m₂, out) ∧
          m₂.writeBlock l r dest target size (.buffer fun j => out.getD j 0) = .ok m₃ ∧
          (∀ j, hostAddr l (m₁.table j) = hostAddr l (m₃.table j)) ∧
          ∀ a, view newer m₁ a = view newer m₃ a := by
  constructor
  · intro v n hn hv
    have hpos : 0 < n := by omega
    have hle : n ≤ pageSize := by
      unfold pageSize
      omega
    have hluma : v + n ≤ lumaAliasBit := by
      unfold lumaAliasBit
      omega
    exact ⟨accessOk_of_agrees hs hle hpos hluma, agrees_of_accessOk hs hle hpos hluma⟩
  · intro G r newer hr m hm h
    refine ⟨fun addr size bytes _ hd => readBlock_writeBlock hr h bytes hd,
      fun addr size _ => zeroBlock_eq l r i addr size m, ?_⟩
    intro dest source target addr size _ htarget hsep
    exact copyBlock_eq hr h htarget hsep

theorem first_in_fcram : 0 ≤ fcramN3DSSize := Nat.zero_le _

theorem third_in_fcram : 0x2000 ≤ fcramN3DSSize := Nat.le_of_ble_eq_true rfl

/-- Two adjacent pages of a process, the second of which is backed by earlier FCRAM. -/
def adjacentOps : List MemorySystem.Op :=
  [.registerPageTable,
    .mapMemoryRegion 0 0x00100000 0x1000 ⟨⟨0x10000, fcramN3DSSize⟩, 0x2000, third_in_fcram⟩,
    .mapMemoryRegion 0 0x00101000 0x1000 ⟨⟨0x10000, fcramN3DSSize⟩, 0, first_in_fcram⟩]

def adjacentSystem : MemorySystem :=
  match MemorySystem.run exampleLayout adjacentOps with
  | .ok s => s
  | .error _ => {}

theorem adjacent_tableOk : ∀ t ∈ adjacentSystem.pageTableList,
    TableOk exampleLayout t := by
  have hrun : MemorySystem.run exampleLayout adjacentOps = .ok adjacentSystem := rfl
  have halt : MemorySystem.MarkedAlternately adjacentOps := by
    intro page
    simp [adjacentOps, MemorySystem.Op.marks, MemorySystem.marksOf]
  have hcons := MemorySystem.stops_run (l := exampleLayout) halt
  rw [hrun] at hcons
  obtain ⟨cached, hcons⟩ := hcons
  exact fun t ht => hcons.tableOk ht

theorem adjacent_backing {page p : Nat} (h : backing exampleLayout
    (adjacentSystem.pageTableList.getD 0 {}) page = some p) :
    page = 0x100 ∧ p = 0x12000 ∨ page = 0x101 ∧ p = 0x10000 := by
  by_cases h₁ : page = 0x100
  · subst h₁
    exact .inl ⟨rfl, (Option.some.inj h).symm⟩
  · by_cases h₂ : page = 0x101
    · subst h₂
      exact .inr ⟨rfl, (Option.some.inj h).symm⟩
    · have htype : (adjacentSystem.pageTableList.getD 0 {}).attributes page = .unmapped := by
        show Function.update (Function.update _ 0x100 _) 0x101 _ page = _
        rw [Function.update_of_ne h₂, Function.update_of_ne h₁]
      rw [backing, htype] at h
      cases h

/-- At the end of the first page a word agrees and a half-word that crosses does not; blocks across
the pages are read back. -/
theorem accesses_agree_adjacent :
    ScalarAgrees exampleLayout adjacentSystem 0 0x100FFC 4 ∧
    ¬ ScalarAgrees exampleLayout adjacentSystem 0 0x100FFF 2 ∧
    ∀ bytes, ∃ m₁ m₂ out,
      Machine.writeBlock exampleLayout (preciseGpu exampleLayout) 0
        0x100FFF 2 (.buffer bytes) ⟨adjacentSystem, fun _ => 0, fun _ => none⟩ = .ok m₁ ∧
      m₁.readBlock exampleLayout (preciseGpu exampleLayout) 0
        0x100FFF 2 = .ok (m₂, out) ∧ out[1]? = some (bytes 1) := by
  obtain ⟨hscalar, hblock⟩ := accesses_agree exampleLayout adjacentSystem 0 adjacent_tableOk
  refine ⟨?_, ?_, fun bytes => ?_⟩
  · exact (hscalar 0x100FFC 4 (by decide) (by decide)).mpr (.inl (by decide))
  · rw [hscalar 0x100FFF 2 (by decide) (by decide)]
    rintro (h | ⟨h, -⟩ | ⟨p, h₁, h₂, -⟩)
    · exact absurd h (by decide)
    · revert h
      decide +kernel
    · have hp := adjacent_backing h₁
      have hq := adjacent_backing h₂
      omega
  · have hdistinct : DistinctBacking exampleLayout
        (adjacentSystem.pageTableList.getD 0 {}) := by
      intro page page' p p' hne hp hp'
      have := adjacent_backing hp
      have := adjacent_backing hp'
      unfold pageSize
      omega
    obtain ⟨m₁, m₂, out, hwrite, hread, hout⟩ := (hblock _ _ _ (lawful_preciseGpu _)
      ⟨adjacentSystem, fun _ => 0, fun _ => none⟩ rfl ⟨adjacent_tableOk, fun _ _ => rfl⟩).1
      0x100FFF 2 bytes (by decide) hdistinct
    refine ⟨m₁, m₂, out, hwrite, hread, hout 1 (by decide) ?_⟩
    decide +kernel

/-- A half-word read across the two pages: its upper byte comes from behind the first page, where
`ReadBlock` takes it from the second. -/
theorem scalar_crosses :
    (Machine.read exampleLayout (preciseGpu exampleLayout) 0 2 0x100FFF
      ⟨adjacentSystem, fun a => if a = 0x10000 then 7 else 0, fun _ => none⟩).map (·.2) = .ok 0 ∧
    (Machine.readBlock exampleLayout (preciseGpu exampleLayout) 0 0x100FFF
      2 ⟨adjacentSystem, fun a => if a = 0x10000 then 7 else 0, fun _ => none⟩).map
      (fun x => littleEndian x.2) = .ok 0x700 := by
  decide +kernel

end GbaStation.Paging
