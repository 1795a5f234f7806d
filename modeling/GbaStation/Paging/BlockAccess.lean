import GbaStation.Paging.GpuCoherence

/-!
# Block accesses (`core/memory.cpp`)

What the four block functions compute, byte by byte, whatever the types of the pages are:

- `readBlock` returns the bytes `seen` through the page table, and zero where nothing is mapped.
- `writeBlock` overlays the bytes of its source at the host addresses of the range.
- `zeroBlock` is `writeBlock` of zeros, and `copyBlock` of ranges with separate memory is
  `readBlock` followed by `writeBlock`.

Each loop is followed chunk by chunk: a chunk has one lemma, and `Covers` is the induction.
-/

namespace GbaStation.Paging

open Machine

variable {G : Type} {l : Layout} {r : Gpu G} {newer : G → Nat → Option Byte}
  {m m' m'' : Machine G} {t : PageTable} {i p a addr size : Nat} {c : Chunk} {cs : List Chunk}

/-- The byte behind an address, with what the rasterizer holds in place. -/
def seen (l : Layout) (newer : G → Nat → Option Byte) (m : Machine G) (process vaddr : Nat) :
    Byte :=
  match hostAddr l (m.table process) vaddr with
  | some a => view newer m a
  | none => 0

theorem seen_eq (h : hostAddr l (m.table i) addr = some a) :
    seen l newer m i addr = view newer m a := by
  rw [seen, h]

/-! ## Chunks -/

/-- The chunks take the range from `addr` in order, each within its page. -/
def Covers : List Chunk → (addr size : Nat) → Prop
  | [], _, size => size = 0
  | c :: cs, addr, size => c.vaddr = addr ∧ c.offset + c.size ≤ pageSize ∧ 0 < c.size ∧
      c.size ≤ size ∧ Covers cs (addr + c.size) (size - c.size)

theorem covers_chunksFrom : ∀ (fuel page offset size : Nat), size ≤ fuel → offset < pageSize →
    Covers (chunksFrom fuel page offset size) (page * pageSize + offset) size
  | 0, _, _, size, hfuel, _ => by
    show size = 0
    omega
  | fuel + 1, page, offset, size, hfuel, hoff => by
    unfold chunksFrom
    split
    · assumption
    · refine ⟨rfl, by simp only; omega, by simp only; omega, Nat.min_le_right _ _, ?_⟩
      by_cases hlast : size ≤ pageSize - offset
      · -- the last page of the range
        rw [Nat.min_eq_right hlast, Nat.sub_self]
        cases fuel <;> exact rfl
      · rw [Nat.min_eq_left (by omega)]
        have ih := covers_chunksFrom fuel (page + 1) 0 (size - (pageSize - offset)) (by omega)
          (by decide)
        rwa [show page * pageSize + offset + (pageSize - offset) = (page + 1) * pageSize + 0 by
          rw [Nat.add_mul]
          omega]

theorem covers_chunks (addr size : Nat) : Covers (chunks addr size) addr size := by
  have h := covers_chunksFrom size (addr / pageSize) (addr % pageSize) size (Nat.le_refl _)
    (Nat.mod_lt _ (by decide))
  rwa [Nat.div_add_mod'] at h

variable {j n ptr : Nat} {R : Nat → Prop}

/-- Every byte of a chunk lies in its page. -/
theorem page_of_chunk (hc : c.offset + c.size ≤ pageSize) (hj : j < c.size) :
    (c.vaddr + j) / pageSize = c.page ∧ (c.vaddr + j) % pageSize = c.offset + j := by
  have hpos : 0 < pageSize := by decide
  unfold Chunk.vaddr
  rw [Nat.add_assoc, Nat.mul_comm, Nat.mul_add_div hpos, Nat.mul_add_mod]
  exact ⟨by rw [Nat.div_eq_of_lt (by omega)]; omega, Nat.mod_eq_of_lt (by omega)⟩

theorem hostAddr_chunk (hc : c.offset + c.size ≤ pageSize) (hj : j < c.size)
    (hb : backing l t c.page = some p) : hostAddr l t (c.vaddr + j) = some (p + c.offset + j) := by
  obtain ⟨hpage, hoff⟩ := page_of_chunk hc hj
  rw [hostAddr, hpage, hoff, hb, Option.map_some, Nat.add_assoc]

theorem hostAddr_chunk_none (hc : c.offset + c.size ≤ pageSize) (hj : j < c.size)
    (hb : t.attributes c.page = .unmapped) : hostAddr l t (c.vaddr + j) = none := by
  rw [hostAddr, (page_of_chunk hc hj).1, backing, hb]
  rfl

/-! ## What a page looks like to an access -/

/-- The four ways an access finds a page, with the memory it goes to. -/
inductive PageCase (l : Layout) (t : PageTable) (page : Nat) : Prop
  | unmapped (type : t.attributes page = .unmapped) (pointer : t.pointers page = none)
  | memory (ref : HostRef) (type : t.attributes page = .memory)
      (pointer : t.pointers page = some ref) (backing : backing l t page = some ref.getPtr)
  | watchpoint (count : Nat) (ref : HostRef) (type : t.attributes page = .memoryWatchpoint)
      (pointer : t.pointers page = none)
      (info : t.watchpointPagesMap page = some ⟨count, some ref⟩)
      (backing : backing l t page = some ref.getPtr)
  | cached (ref : HostRef) (type : t.attributes page = .rasterizerCachedMemory ∨
        t.attributes page = .rasterizerCachedMemoryWatchpoint)
      (pointer : t.pointers page = none)
      (cached : l.getPointerForRasterizerCache (page * pageSize) = some ref)
      (backing : backing l t page = some ref.getPtr)

theorem TableOk.pageCase (h : TableOk l t) (page : Nat) : PageCase l t page := by
  have hpointer := h.pointer page
  have hbacking := h.backing page
  have hnone : t.attributes page ≠ .memory → t.pointers page = none := by
    intro hne
    cases hp : t.pointers page with
    | none => rfl
    | some ref => exact absurd (hpointer.mp (by rw [hp]; rfl)) hne
  cases htype : t.attributes page with
  | unmapped => exact .unmapped htype (hnone (by rw [htype]; decide))
  | memory =>
    obtain ⟨ref, href⟩ := Option.isSome_iff_exists.mp (hpointer.mpr htype)
    exact .memory ref htype href (by rw [Paging.backing, htype]; simp [href])
  | memoryWatchpoint =>
    have hsome := hbacking (by rw [htype]; decide)
    unfold Paging.backing at hsome
    rw [htype] at hsome
    cases hinfo : t.watchpointPagesMap page with
    | none => simp [hinfo] at hsome
    | some info =>
      obtain ⟨count, memory⟩ := info
      cases memory with
      | none => simp [hinfo] at hsome
      | some ref =>
        exact .watchpoint count ref htype (hnone (by rw [htype]; decide)) hinfo
          (by rw [Paging.backing, htype]; simp [hinfo])
  | rasterizerCachedMemory | rasterizerCachedMemoryWatchpoint =>
    have hsome := hbacking (by rw [htype]; decide)
    unfold Paging.backing at hsome
    rw [htype] at hsome
    obtain ⟨p, hp⟩ := Option.isSome_iff_exists.mp hsome
    obtain ⟨ref, href, rfl⟩ := Option.map_eq_some_iff.mp hp
    exact .cached ref (by simp [htype]) (hnone (by rw [htype]; decide)) href
      (by rw [Paging.backing, htype]; exact hp)

/-- The rasterizer-cached bytes of a chunk of a cached page are its bytes. -/
theorem cacheRange_chunk {ref : HostRef}
    (hp : l.getPointerForRasterizerCache c.vaddr = some ref)
    (hpage : ∃ ref', l.getPointerForRasterizerCache (c.page * pageSize) = some ref')
    (hc : c.offset + c.size ≤ pageSize) :
    CacheRange l c.vaddr c.size a ↔ ref.getPtr ≤ a ∧ a < ref.getPtr + c.size := by
  obtain ⟨ref₀, href₀⟩ := hpage
  have hat : ∀ j, j < c.size → ∃ ref', l.getPointerForRasterizerCache (c.vaddr + j) = some ref' ∧
      ref'.getPtr = ref.getPtr + j := by
    intro j hj
    obtain ⟨ref', href', -⟩ := pointer_offset href₀ (show c.offset + j < pageSize by omega)
    rw [← Nat.add_assoc] at href'
    exact ⟨ref', href', pointer_add hp href' (by omega)⟩
  constructor
  · rintro ⟨j, hj, ref', href', rfl⟩
    obtain ⟨ref'', href'', heq⟩ := hat j hj
    rw [href'] at href''
    obtain rfl := Option.some.inj href''
    omega
  · rintro ⟨hge, hlt⟩
    obtain ⟨ref', href', heq⟩ := hat (a - ref.getPtr) (by omega)
    exact ⟨a - ref.getPtr, by omega, ref', href', by omega⟩

/-- A cached page lies low enough for its addresses not to wrap. -/
theorem lt_of_cached {ref : HostRef} {page : Nat}
    (h : l.getPointerForRasterizerCache (page * pageSize) = some ref) :
    page * pageSize + 2 * pageSize < 2 ^ 32 := by
  have := pointer_cases h
  unfold pageSize at *
  omega

/-! ## Reading -/

theorem copyOut_eq_seen {host : Nat → Byte}
    (h : ∀ j, j < n → ∃ a, hostAddr l (m.table i) (addr + j) = some a ∧ a = p + j ∧
      host a = view newer m a) :
    copyOut host p n = (List.range n).map fun j => seen l newer m i (addr + j) := by
  refine List.map_congr_left fun j hj => ?_
  obtain ⟨a, ha, rfl, hhost⟩ := h j (List.mem_range.mp hj)
  rw [seen_eq ha, hhost]

theorem readChunk_spec (hr : LawfulGpu l newer r) (h : Coherent l newer m)
    (hc : c.offset + c.size ≤ pageSize) (hpos : 0 < c.size) :
    ∃ m', m.readChunk l r i c =
        .ok (m', (List.range c.size).map fun j => seen l newer m i (c.vaddr + j)) ∧
      Settles l newer (fun _ => False) (fun _ => False) m m' := by
  have hplain : ∀ ref : HostRef, Plain (m.table i) c.page →
      backing l (m.table i) c.page = some ref.getPtr →
      copyOut m.host (ref.getPtr + c.offset) c.size =
        (List.range c.size).map fun j => seen l newer m i (c.vaddr + j) := by
    intro ref hp hb
    refine copyOut_eq_seen fun j hj => ⟨_, hostAddr_chunk hc hj hb, rfl, ?_⟩
    refine (h.view_of_plain (i := i) (v := c.vaddr + j) ?_ (hostAddr_chunk hc hj hb)).symm
    rwa [(page_of_chunk hc hj).1]
  unfold readChunk
  cases (h.table i).pageCase c.page with
  | unmapped htype =>
    refine ⟨m, ?_, Settles.refl h⟩
    rw [htype]
    refine congrArg (fun bytes => Except.ok (m, bytes)) ?_
    refine List.ext_getElem (by simp) fun j hj _ => ?_
    simp only [List.length_replicate] at hj
    rw [List.getElem_replicate, List.getElem_map, List.getElem_range, seen,
      hostAddr_chunk_none hc hj htype]
  | memory ref htype hpointer hb =>
    refine ⟨m, ?_, Settles.refl h⟩
    simp only [htype, hpointer, hplain ref (.inl htype) hb]
  | watchpoint count ref htype _ hinfo hb =>
    refine ⟨m, ?_, Settles.refl h⟩
    simp only [htype, hinfo, hplain ref (.inr htype) hb]
  | cached ref htype _ hcached hb =>
    have hlt := lt_of_cached hcached
    obtain ⟨ref', href', hptr⟩ := pointer_offset hcached (show c.offset < pageSize by omega)
    have hwrap : c.vaddr + c.size < 2 ^ 32 := by
      unfold Chunk.vaddr
      omega
    have hs := settles_flushVirtualRegion hr h .flush (by decide) hwrap
    refine ⟨_, ?_, hs.mono (fun _ => False.elim) fun a ha => nomatch ha.1⟩
    have hbytes : copyOut (m.rasterizerFlushVirtualRegion l r c.vaddr c.size .flush).host
        ref'.getPtr c.size = (List.range c.size).map fun j => seen l newer m i (c.vaddr + j) := by
      refine copyOut_eq_seen fun j hj => ⟨_, hostAddr_chunk hc hj hb, by omega, ?_⟩
      have hnone := hs.settled (ref.getPtr + c.offset + j)
        ((cacheRange_chunk href' ⟨ref, hcached⟩ hc).mpr (by omega))
      have hseen := hs.seen (ref.getPtr + c.offset + j) fun hd => nomatch hd.1
      exact (view_of_none hnone).symm.trans hseen
    have href'' : l.getPointerForRasterizerCache c.vaddr = some ref' := href'
    rcases htype with htype | htype <;> simp only [htype, href'', hbytes]

theorem seen_settles (h : Settles l newer R (fun _ => False) m m') (i v : Nat) :
    seen l newer m' i v = seen l newer m i v := by
  unfold seen
  rw [h.hostAddr]
  split
  · exact h.seen _ id
  · rfl

/-- The bytes of a range are those of its first part, and then the others. -/
theorem map_range_add (f : Nat → Byte) (n k : Nat) :
    (List.range (n + k)).map f = (List.range n).map f ++ (List.range k).map fun j => f (n + j) := by
  rw [List.range_add, List.map_append, List.map_map]
  rfl

theorem readChunks_spec (hr : LawfulGpu l newer r) : ∀ {cs : List Chunk} {addr size : Nat}
    {m : Machine G} (bytes : List Byte), Covers cs addr size → Coherent l newer m →
    ∃ m', cs.foldlM (fun (m, bytes) c => do
        let (m, chunk) ← readChunk l r i m c
        Except.ok (m, bytes ++ chunk)) (m, bytes) =
        .ok (m', bytes ++ (List.range size).map fun j => seen l newer m i (addr + j)) ∧
      Settles l newer (fun _ => False) (fun _ => False) m m'
  | [], addr, size, m, bytes, hcov, h => by
    obtain rfl : size = 0 := hcov
    exact ⟨m, by simp [pure, Except.pure], Settles.refl h⟩
  | c :: cs, addr, size, m, bytes, hcov, h => by
    obtain ⟨rfl, hc, hpos, hle, hcov⟩ := hcov
    obtain ⟨m₁, hread, hs⟩ := readChunk_spec (i := i) hr h hc hpos
    obtain ⟨m₂, hrest, hs₂⟩ := readChunks_spec hr
      (bytes ++ (List.range c.size).map fun j => seen l newer m i (c.vaddr + j)) hcov hs.coherent
    refine ⟨m₂, ?_, (hs.trans hs₂).mono (fun _ => False.elim) fun _ => id⟩
    rw [List.foldlM_cons]
    simp only [hread]
    refine hrest.trans ?_
    obtain ⟨k, rfl⟩ : ∃ k, size = c.size + k := ⟨size - c.size, by omega⟩
    rw [Nat.add_sub_cancel_left, List.append_assoc, map_range_add]
    simp only [seen_settles hs, Nat.add_assoc]

/-- **`ReadBlock`** returns the bytes behind the range, and leaves the memory as it is seen. -/
theorem readBlock_spec (hr : LawfulGpu l newer r) (h : Coherent l newer m) (i addr size : Nat) :
    ∃ m', m.readBlock l r i addr size =
        .ok (m', (List.range size).map fun j => seen l newer m i (addr + j)) ∧
      Settles l newer (fun _ => False) (fun _ => False) m m' := by
  obtain ⟨m', hm', hs⟩ := readChunks_spec (i := i) hr [] (covers_chunks addr size) h
  exact ⟨m', by rw [readBlock, hm', List.nil_append], hs⟩

/-! ## Writing -/

/-- `m` is taken to `m'` by writes after which the memory is seen as `g`. -/
structure Wrote (l : Layout) (newer : G → Nat → Option Byte) (m m' : Machine G) (g : Nat → Byte) :
    Prop where
  coherent : Coherent l newer m'
  tables : ∀ i, Uncached l (m.table i) (m'.table i)
  fewer : ∀ a, newer m'.gpu a = none ∨ newer m'.gpu a = newer m.gpu a
  seen : ∀ a, view newer m' a = g a

theorem Wrote.refl (h : Coherent l newer m) : Wrote l newer m m (view newer m) :=
  ⟨h, fun _ => Uncached.refl l _, fun _ => .inr rfl, fun _ => rfl⟩

theorem Wrote.trans {g g' : Nat → Byte} (h : Wrote l newer m m' g) (h' : Wrote l newer m' m'' g') :
    Wrote l newer m m'' g' where
  coherent := h'.coherent
  tables i := (h.tables i).trans (h'.tables i)
  fewer a := by
    rcases h'.fewer a with ha | ha
    · exact .inl ha
    · rw [ha]
      exact h.fewer a
  seen := h'.seen

/-- A `memcpy` into memory of which nothing newer is held. -/
theorem wrote_copyFrom (h : Coherent l newer m) (src : Source)
    (hnone : ∀ a, ptr ≤ a → a < ptr + n → newer m.gpu a = none) :
    Wrote l newer m (m.copyFrom ptr n src) (copyIn (view newer m) ptr n (src m.host)) where
  coherent := ⟨h.tables, h.plain⟩
  tables _ := Uncached.refl l _
  fewer _ := .inr rfl
  seen a := by
    unfold view Machine.copyFrom copyIn
    simp only
    split_ifs with ha
    · rw [hnone a ha.1 ha.2, Option.getD_none]
    · rfl

/-- A settled region, written as a whole: what was dropped of it is not missed. -/
theorem wrote_settled {D : Nat → Prop} (src : Source) (h : Settles l newer R D m m')
    (hnone : ∀ a, ptr ≤ a → a < ptr + n → newer m'.gpu a = none)
    (hD : ∀ a, D a → ptr ≤ a ∧ a < ptr + n) :
    Wrote l newer m (m'.copyFrom ptr n src) (copyIn (view newer m) ptr n (src m'.host)) where
  coherent := (wrote_copyFrom h.coherent src hnone).coherent
  tables := h.table
  fewer := h.fewer
  seen a := by
    rw [(wrote_copyFrom h.coherent src hnone).seen a, copyIn, copyIn]
    split_ifs with ha
    · rfl
    · exact h.seen a fun hd => ha (hD a hd)

/-- The first `n` bytes of a source buffer. Those of a pointer into host memory are as they are in
`g`, as long as the host memory agrees with `g` on `S`. -/
def Provides (src : Source) (bytes : Nat → Byte) (n : Nat) (S : Nat → Prop) (g : Nat → Byte) :
    Prop :=
  ∀ host, (∀ a, S a → host a = g a) → ∀ j, j < n → src host j = bytes j

theorem provides_buffer (bytes : Nat → Byte) (n : Nat) (g : Nat → Byte) :
    Provides (.buffer bytes) bytes n (fun _ => False) g := fun _ _ _ _ => rfl

theorem provides_pointer (ptr n : Nat) (g : Nat → Byte) :
    Provides (.pointer ptr) (fun j => g (ptr + j)) n (fun a => ptr ≤ a ∧ a < ptr + n) g :=
  fun _ h j hj => h (ptr + j) ⟨by omega, by omega⟩

theorem copyIn_congr {host f f' : Nat → Byte} (h : ∀ j, j < n → f j = f' j) :
    copyIn host ptr n f = copyIn host ptr n f' := by
  funext a
  unfold copyIn
  split_ifs with ha
  · exact h _ (by omega)
  · rfl

theorem writeChunk_spec (hr : LawfulGpu l newer r) (h : Coherent l newer m)
    (hc : c.offset + c.size ≤ pageSize) (hpos : 0 < c.size) {src : Source} {bytes : Nat → Byte}
    {S : Nat → Prop} (hS : ∀ a, S a → newer m.gpu a = none)
    (hsep : ∀ j, j < c.size → ∀ a, hostAddr l (m.table i) (c.vaddr + j) = some a → ¬ S a)
    (hsrc : Provides src bytes c.size S (view newer m)) :
    ∃ m', m.writeChunk l r i c src = .ok m' ∧
      Wrote l newer m m' (overlay (fun j => hostAddr l (m.table i) (c.vaddr + j)) bytes c.size
        (view newer m)) := by
  -- the bytes of a page that is mapped are a block
  have hblock : ∀ ref : HostRef, backing l (m.table i) c.page = some ref.getPtr →
      overlay (fun j => hostAddr l (m.table i) (c.vaddr + j)) bytes c.size (view newer m) =
        copyIn (view newer m) (ref.getPtr + c.offset) c.size bytes := fun ref hb =>
    overlay_block fun j hj => hostAddr_chunk hc hj hb
  have hplain : ∀ ref : HostRef, Plain (m.table i) c.page →
      backing l (m.table i) c.page = some ref.getPtr →
      Wrote l newer m (m.copyFrom (ref.getPtr + c.offset) c.size src)
        (overlay (fun j => hostAddr l (m.table i) (c.vaddr + j)) bytes c.size (view newer m)) := by
    intro ref hp hb
    have hnone : ∀ a, ref.getPtr + c.offset ≤ a → a < ref.getPtr + c.offset + c.size →
        newer m.gpu a = none := by
      intro a hge hlt
      obtain ⟨j, rfl⟩ := Nat.exists_eq_add_of_le hge
      refine h.of_plain (i := i) (v := c.vaddr + j) ?_ (hostAddr_chunk hc (by omega) hb)
      rwa [(page_of_chunk hc (by omega)).1]
    have hw := wrote_copyFrom h src hnone
    rw [hblock ref hb, ← copyIn_congr (hsrc m.host fun a ha => ?_)]
    · exact hw
    · exact (view_of_none (hS a ha)).symm
  unfold writeChunk
  cases (h.table i).pageCase c.page with
  | unmapped htype =>
    refine ⟨m, by rw [htype], ?_⟩
    rw [overlay_none fun j hj => hostAddr_chunk_none hc hj htype]
    exact Wrote.refl h
  | memory ref htype hpointer hb =>
    exact ⟨_, by simp only [htype, hpointer], hplain ref (.inl htype) hb⟩
  | watchpoint count ref htype _ hinfo hb =>
    exact ⟨_, by simp only [htype, hinfo], hplain ref (.inr htype) hb⟩
  | cached ref htype _ hcached hb =>
    have hlt := lt_of_cached hcached
    obtain ⟨ref', href', hptr⟩ := pointer_offset hcached (show c.offset < pageSize by omega)
    have href'' : l.getPointerForRasterizerCache c.vaddr = some ref' := href'
    have hwrap : c.vaddr + c.size < 2 ^ 32 := by
      unfold Chunk.vaddr
      omega
    have hs := settles_flushVirtualRegion hr h .invalidate (by decide) hwrap
    have hrange := fun a => cacheRange_chunk (a := a) href'' ⟨ref, hcached⟩ hc
    have hw : Wrote l newer m _ _ := wrote_settled src hs
      (fun a hge hlt => hs.settled a ((hrange a).mpr ⟨hge, hlt⟩)) fun a ha => (hrange a).mp ha.2
    refine ⟨(m.rasterizerFlushVirtualRegion l r c.vaddr c.size .invalidate).copyFrom ref'.getPtr
      c.size src, by rcases htype with htype | htype <;> simp only [htype, href''], ?_⟩
    rw [hblock ref hb, ← hptr, ← copyIn_congr (hsrc _ fun a ha => ?_)]
    · exact hw
    · -- the source is neither held by the rasterizer nor dropped
      have hnone : newer (m.rasterizerFlushVirtualRegion l r c.vaddr c.size .invalidate).gpu a =
          none := by
        rcases hs.fewer a with hn | hn
        · exact hn
        · exact hn.trans (hS a ha)
      rw [← hs.seen a ?_]
      · exact (view_of_none hnone).symm
      · rintro ⟨-, hin⟩
        obtain ⟨hge, hlt'⟩ := (hrange a).mp hin
        refine hsep (a - ref'.getPtr) (by omega) a ?_ ha
        rw [hostAddr_chunk hc (by omega) hb]
        congr 1
        omega

theorem writeChunks_spec (hr : LawfulGpu l newer r) : ∀ {cs : List Chunk} {addr size : Nat}
    {m : Machine G} {src : Source} (bytes : Nat → Byte) {S : Nat → Prop},
    Covers cs addr size → Coherent l newer m → (∀ a, S a → newer m.gpu a = none) →
    (∀ j, j < size → ∀ a, hostAddr l (m.table i) (addr + j) = some a → ¬ S a) →
    Provides src bytes size S (view newer m) →
    ∃ m', m.writeChunks l r i cs src = .ok m' ∧
      Wrote l newer m m' (overlay (fun j => hostAddr l (m.table i) (addr + j)) bytes size
        (view newer m))
  | [], addr, size, m, src, bytes, S, hcov, h, _, _, _ => by
    obtain rfl : size = 0 := hcov
    exact ⟨m, rfl, Wrote.refl h⟩
  | c :: cs, addr, size, m, src, bytes, S, hcov, h, hS, hsep, hsrc => by
    obtain ⟨rfl, hc, hpos, hle, hcov⟩ := hcov
    obtain ⟨k, rfl⟩ : ∃ k, size = c.size + k := ⟨size - c.size, by omega⟩
    rw [Nat.add_sub_cancel_left] at hcov
    obtain ⟨m₁, hwrite, hw⟩ := writeChunk_spec (i := i) hr h hc hpos hS
      (fun j hj => hsep j (by omega)) (fun host hhost j hj => hsrc host hhost j (by omega))
    have haddr := hostAddr_uncached (hw.tables i)
    -- the source has not been written to
    have hview : ∀ a, S a → view newer m₁ a = view newer m a := by
      intro a ha
      rw [hw.seen, overlay_off]
      intro j hj heq
      exact hsep j (by omega) a heq ha
    have hnone : ∀ a, S a → newer m₁.gpu a = none := by
      intro a ha
      rcases hw.fewer a with hn | hn
      · exact hn
      · exact hn.trans (hS a ha)
    obtain ⟨m₂, hrest, hw₂⟩ := writeChunks_spec hr (fun j => bytes (c.size + j)) hcov
      hw.coherent hnone
      (fun j hj a ha => by
        rw [haddr, Nat.add_assoc] at ha
        exact hsep (c.size + j) (by omega) a ha)
      (fun host hhost j hj => hsrc host (fun a ha => (hhost a ha).trans (hview a ha)) (c.size + j)
        (by omega))
    refine ⟨m₂, ?_, ?_⟩
    · rw [writeChunks, hwrite]
      exact hrest
    · have hw₁₂ := hw.trans hw₂
      rw [funext hw.seen] at hw₁₂
      rw [overlay_add]
      simp only [haddr, Nat.add_assoc] at hw₁₂
      exact hw₁₂

/-- **`WriteBlock`** overlays the bytes of the source at the addresses of the range. A source in
host memory must be apart from the range, and the rasterizer must hold nothing newer of it. -/
theorem writeBlock_spec (hr : LawfulGpu l newer r) (h : Coherent l newer m) (i addr size : Nat)
    {src : Source} {bytes : Nat → Byte} {S : Nat → Prop} (hS : ∀ a, S a → newer m.gpu a = none)
    (hsep : ∀ j, j < size → ∀ a, hostAddr l (m.table i) (addr + j) = some a → ¬ S a)
    (hsrc : Provides src bytes size S (view newer m)) :
    ∃ m', m.writeBlock l r i addr size src = .ok m' ∧
      Wrote l newer m m' (overlay (fun j => hostAddr l (m.table i) (addr + j)) bytes size
        (view newer m)) :=
  writeChunks_spec hr bytes (covers_chunks addr size) h hS hsep hsrc

theorem writeBlock_buffer (hr : LawfulGpu l newer r) (h : Coherent l newer m) (i addr size : Nat)
    (bytes : Nat → Byte) :
    ∃ m', m.writeBlock l r i addr size (.buffer bytes) = .ok m' ∧
      Wrote l newer m m' (overlay (fun j => hostAddr l (m.table i) (addr + j)) bytes size
        (view newer m)) :=
  writeBlock_spec hr h i addr size (fun _ => False.elim) (fun _ _ _ _ => id)
    (provides_buffer bytes size _)

/-! ## Zeroing and copying -/

theorem zeroChunk_eq (l : Layout) (r : Gpu G) (i : Nat) (m : Machine G) (c : Chunk) :
    m.zeroChunk l r i c = m.writeChunk l r i c (.buffer fun _ => 0) := rfl

/-- **`ZeroBlock`** is `WriteBlock` of zeros, step by step. -/
theorem zeroBlock_eq (l : Layout) (r : Gpu G) (i addr size : Nat) (m : Machine G) :
    m.zeroBlock l r i addr size = m.writeBlock l r i addr size (.buffer fun _ => 0) := by
  unfold zeroBlock writeBlock
  generalize chunks addr size = cs
  induction cs generalizing m with
  | nil => rfl
  | cons c cs ih =>
    rw [List.foldlM_cons, writeChunks, zeroChunk_eq]
    cases m.writeChunk l r i c (.buffer fun _ => 0) with
    | error e => rfl
    | ok m' => exact ih m'

/-- Writes after a call of the GPU that dropped nothing. -/
theorem Wrote.of_settles {g : Nat → Byte} (h : Settles l newer R (fun _ => False) m m')
    (h' : Wrote l newer m' m'' g) :
    Wrote l newer m m'' g where
  coherent := h'.coherent
  tables i := (h.table i).trans (h'.tables i)
  fewer a := by
    rcases h'.fewer a with ha | ha
    · exact .inl ha
    · rw [ha]
      exact h.fewer a
  seen := h'.seen

variable {dest source : Nat}

/-- A chunk of `CopyBlock` that is read from host memory, of which nothing newer is held. -/
theorem wrote_pointer (hr : LawfulGpu l newer r) (h : Coherent l newer m)
    (hc : c.offset + c.size ≤ pageSize) {addr : Nat}
    (hb : backing l (m.table source) c.page = some p)
    (hnone : ∀ j, j < c.size → newer m.gpu (p + c.offset + j) = none)
    (hsep : ∀ j, j < c.size → ∀ k, k < c.size → ∀ a,
      hostAddr l (m.table source) (c.vaddr + j) = some a →
      hostAddr l (m.table dest) (addr + k) ≠ some a) :
    ∃ m', m.writeBlock l r dest addr c.size (.pointer (p + c.offset)) = .ok m' ∧
      Wrote l newer m m' (overlay (fun j => hostAddr l (m.table dest) (addr + j))
        (fun j => seen l newer m source (c.vaddr + j)) c.size (view newer m)) := by
  obtain ⟨m', hm', hw⟩ := writeBlock_spec hr h dest addr c.size
    (S := fun a => p + c.offset ≤ a ∧ a < p + c.offset + c.size)
    (by
      rintro a ⟨hge, hlt⟩
      obtain ⟨j, rfl⟩ := Nat.exists_eq_add_of_le hge
      exact hnone j (by omega))
    (by
      rintro k hk a ha ⟨hge, hlt⟩
      obtain ⟨j, rfl⟩ := Nat.exists_eq_add_of_le hge
      exact hsep j (by omega) k hk _ (hostAddr_chunk hc (by omega) hb) ha)
    (provides_pointer _ _ _)
  have hbytes : ∀ j, j < c.size →
      seen l newer m source (c.vaddr + j) = view newer m (p + c.offset + j) :=
    fun j hj => seen_eq (hostAddr_chunk hc hj hb)
  refine ⟨m', hm', ?_⟩
  rwa [overlay_congr (fun _ _ => rfl) hbytes]

theorem copyChunk_spec (hr : LawfulGpu l newer r) (h : Coherent l newer m)
    (hc : c.offset + c.size ≤ pageSize) (hpos : 0 < c.size) (addr : Nat)
    (hsep : ∀ j, j < c.size → ∀ k, k < c.size → ∀ a,
      hostAddr l (m.table source) (c.vaddr + j) = some a →
      hostAddr l (m.table dest) (addr + k) ≠ some a) :
    ∃ m', m.copyChunk l r dest source addr c = .ok m' ∧
      Wrote l newer m m' (overlay (fun j => hostAddr l (m.table dest) (addr + j))
        (fun j => seen l newer m source (c.vaddr + j)) c.size (view newer m)) := by
  have hplain : ∀ ref : HostRef, Plain (m.table source) c.page →
      backing l (m.table source) c.page = some ref.getPtr →
      ∀ j, j < c.size → newer m.gpu (ref.getPtr + c.offset + j) = none := by
    intro ref hp hb j hj
    refine h.of_plain (i := source) (v := c.vaddr + j) ?_ (hostAddr_chunk hc hj hb)
    rwa [(page_of_chunk hc hj).1]
  unfold copyChunk
  cases (h.table source).pageCase c.page with
  | unmapped htype =>
    obtain ⟨m', hm', hw⟩ := writeBlock_buffer hr h dest addr c.size fun _ => 0
    have hbytes : ∀ j, j < c.size → seen l newer m source (c.vaddr + j) = 0 := by
      intro j hj
      rw [seen, hostAddr_chunk_none hc hj htype]
    refine ⟨m', by rw [htype, ← hm']; exact zeroBlock_eq .., ?_⟩
    rwa [overlay_congr (fun _ _ => rfl) hbytes]
  | memory ref htype hpointer hb =>
    simp only [htype, hpointer]
    exact wrote_pointer hr h hc hb (hplain ref (.inl htype) hb) hsep
  | watchpoint count ref htype _ hinfo hb =>
    simp only [htype, hinfo]
    exact wrote_pointer hr h hc hb (hplain ref (.inr htype) hb) hsep
  | cached ref htype _ hcached hb =>
    have hlt := lt_of_cached hcached
    obtain ⟨ref', href', hptr⟩ := pointer_offset hcached (show c.offset < pageSize by omega)
    have href'' : l.getPointerForRasterizerCache c.vaddr = some ref' := href'
    have hwrap : c.vaddr + c.size < 2 ^ 32 := by
      unfold Chunk.vaddr
      omega
    have hs : Settles l newer (CacheRange l c.vaddr c.size) (fun _ => False) m _ :=
      (settles_flushVirtualRegion hr h .flush (by decide) hwrap).mono (fun _ => id)
        fun a ha => nomatch ha.1
    have hnone : ∀ j, j < c.size → newer (m.rasterizerFlushVirtualRegion l r c.vaddr c.size
        .flush).gpu (ref.getPtr + c.offset + j) = none := fun j hj =>
      hs.settled _ ((cacheRange_chunk href'' ⟨ref, hcached⟩ hc).mpr (by omega))
    obtain ⟨m', hm', hw⟩ := wrote_pointer hr hs.coherent hc
      (((hs.table source).backing c.page).trans hb) hnone
      (by simpa only [hs.hostAddr] using hsep)
    refine ⟨m', ?_, ?_⟩
    · rw [← hm', ← hptr]
      rcases htype with htype | htype <;> simp only [htype, href'']
    · have hview : view newer (m.rasterizerFlushVirtualRegion l r c.vaddr c.size .flush) =
          view newer m := funext fun a => hs.seen a id
      have hw' := Wrote.of_settles hs hw
      simp only [hs.hostAddr, seen_settles hs, hview] at hw'
      exact hw'

theorem copyChunks_spec (hr : LawfulGpu l newer r) : ∀ {cs : List Chunk} {addr size target : Nat}
    {m : Machine G}, Covers cs addr size → Coherent l newer m → target + size ≤ 2 ^ 32 →
    (∀ j, j < size → ∀ k, k < size → ∀ a, hostAddr l (m.table source) (addr + j) = some a →
      hostAddr l (m.table dest) (target + k) ≠ some a) →
    ∃ m', m.copyChunks l r dest source cs target = .ok m' ∧
      Wrote l newer m m' (overlay (fun j => hostAddr l (m.table dest) (target + j))
        (fun j => seen l newer m source (addr + j)) size (view newer m))
  | [], addr, size, target, m, hcov, h, _, _ => by
    obtain rfl : size = 0 := hcov
    exact ⟨m, rfl, Wrote.refl h⟩
  | c :: cs, addr, size, target, m, hcov, h, hto, hsep => by
    obtain ⟨rfl, hc, hpos, hle, hcov⟩ := hcov
    obtain ⟨k, rfl⟩ : ∃ k, size = c.size + k := ⟨size - c.size, by omega⟩
    rw [Nat.add_sub_cancel_left] at hcov
    obtain ⟨m₁, hcopy, hw⟩ := copyChunk_spec hr h hc hpos target
      fun j hj k hk => hsep j (by omega) k (by omega)
    by_cases hlast : k = 0
    · -- the destination may have wrapped, but nothing is left to copy
      subst hlast
      obtain rfl : cs = [] := by
        cases cs with
        | nil => rfl
        | cons c' cs =>
          obtain ⟨-, -, hpos', hle', -⟩ := hcov
          omega
      exact ⟨m₁, by rw [copyChunks, hcopy]; rfl, hw⟩
    · have haddr := fun i => hostAddr_uncached (hw.tables i)
      have hsource : ∀ j, j < k → seen l newer m₁ source (c.vaddr + c.size + j) =
          seen l newer m source (c.vaddr + (c.size + j)) := by
        intro j hj
        rw [Nat.add_assoc, seen, seen, haddr]
        cases ha : hostAddr l (m.table source) (c.vaddr + (c.size + j)) with
        | none => rfl
        | some a =>
          refine (hw.seen a).trans (overlay_off fun k hk => ?_)
          exact hsep (c.size + j) (by omega) k (by omega) a ha
      obtain ⟨m₂, hrest, hw₂⟩ := copyChunks_spec hr hcov hw.coherent
        (show target + c.size + k ≤ 2 ^ 32 by omega) (by
          intro j hj k' hk' a ha
          rw [haddr, Nat.add_assoc] at ha ⊢
          exact hsep (c.size + j) (by omega) (c.size + k') (by omega) a ha)
      refine ⟨m₂, ?_, ?_⟩
      · rw [copyChunks, hcopy, add32_eq (by omega)]
        exact hrest
      · have hw₁₂ := hw.trans hw₂
        rw [overlay_congr (fun _ _ => rfl) hsource, funext hw.seen] at hw₁₂
        rw [overlay_add]
        simp only [haddr, Nat.add_assoc] at hw₁₂ ⊢
        exact hw₁₂

/-- **`CopyBlock`** overlays the bytes behind the source range, when the two ranges have no memory
in common. -/
theorem copyBlock_spec (hr : LawfulGpu l newer r) (h : Coherent l newer m) {target : Nat}
    (hto : target + size ≤ 2 ^ 32)
    (hsep : ∀ j, j < size → ∀ k, k < size → ∀ a, hostAddr l (m.table source) (addr + j) = some a →
      hostAddr l (m.table dest) (target + k) ≠ some a) :
    ∃ m', m.copyBlock l r dest source target addr size = .ok m' ∧
      Wrote l newer m m' (overlay (fun j => hostAddr l (m.table dest) (target + j))
        (fun j => seen l newer m source (addr + j)) size (view newer m)) :=
  copyChunks_spec hr (covers_chunks addr size) h hto hsep

end GbaStation.Paging
