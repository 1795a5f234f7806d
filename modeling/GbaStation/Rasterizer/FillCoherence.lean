import GbaStation.Rasterizer.MemoryFill

/-!
# The two fills agree

- `agrees_iff`: when the cache leaves what the blitter does.
-/

namespace GbaStation.Rasterizer

open FillCache (downloadFillSurface flushPart flushSegment)

section Blitter

variable {pattern : List UInt8} {length : Nat} {mem mem' : GuestMemory} {ref : MemoryRef}

/-- So much of the loop of the blitter is done. -/
def WrittenTo (pattern : List UInt8) (ref : MemoryRef) (mem : GuestMemory) (i : Nat)
    (mem' : GuestMemory) : Prop :=
  pattern.length ∣ i ∧ mem' = fillPattern pattern ref.address ref.address (ref.address + i) mem

theorem writtenTo_zero : WrittenTo pattern ref mem 0 mem :=
  ⟨Nat.dvd_zero _, (fillPattern_empty (Nat.le_refl _)).symm⟩

theorem WrittenTo.write {i : Nat} (h : WrittenTo pattern ref mem i mem')
    (hinside : ref.Inside i pattern.length) : ∃ mem'', ref.write i pattern mem' = .ok mem'' ∧
      WrittenTo pattern ref mem (i + pattern.length) mem'' := by
  obtain ⟨hi, rfl⟩ := h
  have hwrite := (@write_fillPattern _ _ _ _ mem) (Nat.le_refl pattern.length) hi
    (Nat.le_add_right ref.address i) hinside
  rw [List.take_length] at hwrite
  exact ⟨_, hwrite, Nat.dvd_add hi (Nat.dvd_refl _), rfl⟩

/-- Multiples of a length that are less than one length apart are the same. -/
theorem add_le_of_dvd {n i j : Nat} (hi : n ∣ i) (hj : n ∣ j) (h : i < j) : i + n ≤ j := by
  have hle := Nat.le_of_dvd (Nat.sub_pos_of_lt h) (Nat.dvd_sub hj hi)
  omega

/-- Whole patterns fill a whole number of patterns. -/
theorem strideLoop_write (hpattern : 0 < pattern.length) (hlength : pattern.length ∣ length)
    (hfit : ref.offset + length ≤ ref.area.size) :
    strideLoop length pattern.length (fun i mem => ref.write i pattern mem) 0 mem =
      .ok (fillPattern pattern ref.address ref.address (ref.address + length) mem) := by
  have hbody : ∀ i mem', i < length → WrittenTo pattern ref mem i mem' → ∃ mem'',
      ref.write i pattern mem' = .ok mem'' ∧
        WrittenTo pattern ref mem (i + pattern.length) mem'' := by
    intro i mem' hlt h
    have hle := add_le_of_dvd h.1 hlength hlt
    exact h.write (Or.inr (by omega))
  obtain ⟨i, mem', hloop, ⟨hi, rfl⟩, hstop, hnext⟩ :=
    strideLoop_ok hpattern hbody (by omega) writtenTo_zero
  obtain rfl : i = length := by
    rcases Nat.lt_or_eq_of_le hstop with hlt | heq
    · have hle := add_le_of_dvd hlength hi hlt
      omega
    · exact heq.symm
  exact hloop

/-- The loop over words with an index does the same. -/
theorem strideLoop_write_index {count : Nat}
    (hfit : ref.offset + count * pattern.length ≤ ref.area.size) :
    strideLoop count 1 (fun i mem => ref.write (i * pattern.length) pattern mem) 0 mem =
      .ok (fillPattern pattern ref.address ref.address (ref.address + count * pattern.length)
        mem) := by
  have hbody : ∀ i mem', i < count → WrittenTo pattern ref mem (i * pattern.length) mem' →
      ∃ mem'', ref.write (i * pattern.length) pattern mem' = .ok mem'' ∧
        WrittenTo pattern ref mem ((i + 1) * pattern.length) mem'' := by
    intro i mem' hlt h
    have hle := Nat.mul_le_mul_right pattern.length (Nat.succ_le_of_lt hlt)
    rw [Nat.succ_mul] at hle
    rw [Nat.succ_mul]
    exact h.write (Or.inr (by omega))
  obtain ⟨i, mem', hloop, ⟨-, rfl⟩, hstop, hnext⟩ :=
    (@strideLoop_ok _ _ _ _ 0 _ (fun i => WrittenTo pattern ref mem (i * pattern.length)))
      Nat.one_pos hbody (Nat.succ_pos count) (by rw [Nat.zero_mul]; exact writtenTo_zero)
  obtain rfl : i = count := Nat.le_antisymm (Nat.le_of_lt_succ hnext) hstop
  exact hloop

/-- Where whole patterns do not end with the range, the pattern goes on behind it. -/
theorem of_strideLoop_write (hpattern : 0 < pattern.length)
    (hloop : strideLoop length pattern.length (fun i mem => ref.write i pattern mem) 0 mem =
      .ok mem') : ∃ i, length ≤ i ∧ WrittenTo pattern ref mem i mem' := by
  have hbody : ∀ i mem₁ mem₂, i < length → WrittenTo pattern ref mem i mem₁ →
      ref.write i pattern mem₁ = .ok mem₂ → WrittenTo pattern ref mem (i + pattern.length) mem₂ := by
    intro i mem₁ mem₂ _ h hwrite
    obtain ⟨mem₃, hwrite', h'⟩ := h.write (MemoryRef.of_write hwrite).1
    rwa [Except.ok.inj (hwrite.symm.trans hwrite')]
  obtain ⟨i, h, hstop, -⟩ := of_strideLoop hpattern hbody (by omega) writtenTo_zero hloop
  exact ⟨i, hstop, h⟩

end Blitter

/-! ## Downloads -/

section Downloads

variable {surface : Surface} {ref : MemoryRef} {interval : Interval} {mem : GuestMemory}

/-- A part of a surface is filled with the bytes of the pattern, and nothing else is changed. -/
theorem downloadFillSurface_eq (hsize : 0 < surface.fillSize)
    (hdata : surface.fillSize ≤ surface.fillData.length)
    (href : getPhysicalRef surface.addr.toNat = some ref)
    (hlower : surface.addr.toNat ≤ interval.lower) (hlt : interval.lower ≤ interval.upper)
    (hupper : interval.upper ≤ surface.endAddr.toNat)
    (hfit : ref.offset + (interval.upper - surface.addr.toNat) ≤ ref.area.size) :
    downloadFillSurface surface interval mem =
      .ok (fillPattern (surface.fillData.take surface.fillSize) surface.addr.toNat interval.lower
        interval.upper mem) := by
  have haddress := address_getPhysicalRef href
  have hpattern : (surface.fillData.take surface.fillSize).length = surface.fillSize :=
    List.length_take_of_le hdata
  generalize hstart : interval.lower - surface.addr.toNat = startOffset
  generalize hstop : interval.upper - surface.addr.toNat = endOffset at hfit
  have hcoarse := Nat.mod_add_div startOffset surface.fillSize
  have hbackup := Nat.mod_lt startOffset hsize
  generalize hcount : startOffset % surface.fillSize = backupBytes at hcoarse hbackup
  have hphase : surface.fillSize ∣ startOffset - backupBytes := hcount ▸ Nat.dvd_sub_mod startOffset
  generalize hoffset : startOffset - backupBytes = coarse at hphase
  have hend : min endOffset ref.getSize = endOffset := by
    unfold MemoryRef.getSize
    omega
  have hinside : ref.Inside coarse backupBytes := Or.inr (by omega)
  have hle : startOffset ≤ endOffset := by omega
  have hbody : ∀ offset mem', offset < endOffset → (surface.fillSize ∣ offset ∧ coarse ≤ offset ∧
      mem' = fillPattern (surface.fillData.take surface.fillSize) surface.addr.toNat
        (surface.addr.toNat + coarse) (surface.addr.toNat + min offset endOffset) mem) →
      ∃ mem'', ref.write offset
          (surface.fillData.take (min surface.fillSize (endOffset - offset))) mem' = .ok mem'' ∧
        surface.fillSize ∣ offset + surface.fillSize ∧ coarse ≤ offset + surface.fillSize ∧
        mem'' = fillPattern (surface.fillData.take surface.fillSize) surface.addr.toNat
          (surface.addr.toNat + coarse)
          (surface.addr.toNat + min (offset + surface.fillSize) endOffset) mem := by
    rintro offset mem' hlt ⟨hoffset, hcoarse', rfl⟩
    have hwrite :=
      (@write_fillPattern (surface.fillData.take surface.fillSize) (surface.addr.toNat + coarse)
        offset (min surface.fillSize (endOffset - offset)) mem ref)
      (hpattern.symm ▸ Nat.min_le_left _ _) (by rwa [hpattern]) (by omega) (Or.inr (by omega))
    rw [List.take_take, Nat.min_eq_left (Nat.min_le_left _ _), haddress] at hwrite
    rw [Nat.min_eq_left hlt.le]
    have hnext : offset + min surface.fillSize (endOffset - offset) =
        min (offset + surface.fillSize) endOffset := by omega
    rw [hnext] at hwrite
    exact ⟨_, hwrite, Nat.dvd_add hoffset (Nat.dvd_refl _), by omega, rfl⟩
  obtain ⟨offset, mem', hloop, ⟨-, -, rfl⟩, hlast, -⟩ :=
    (@strideLoop_ok _ _ _ _ coarse _ _ mem) hsize hbody (by omega)
      ⟨hphase, Nat.le_refl _, (fillPattern_empty (by omega)).symm⟩
  rw [downloadFillSurface, if_pos ⟨hlower, hupper⟩, href]
  simp only [hstart, hstop, hcount, hoffset, hend, MemoryRef.read_of_inside hinside]
  show (strideLoop endOffset surface.fillSize _ coarse mem >>= _) = _
  rw [hloop]
  show ref.write coarse _ _ = _
  rw [MemoryRef.write_of_inside (by simpa using hinside)]
  refine congrArg Except.ok (funext fun a => ?_)
  -- the bytes in front of the interval are those of the backup again
  rw [List.length_map, List.length_range, haddress]
  unfold fillPattern
  split_ifs with hfront hin hin <;> try omega
  · have hindex : a - (surface.addr.toNat + coarse) < backupBytes := by omega
    have hback : surface.addr.toNat + coarse + (a - (surface.addr.toNat + coarse)) = a := by omega
    rw [List.getD_eq_getElem?_getD, List.getElem?_map, List.getElem?_range hindex]
    exact congrArg mem hback
  · rfl
  · rfl

end Downloads

/-! ## Flushes -/

namespace MemoryFillConfig

/-- The bytes that repeat, for the cache. -/
def pattern (config : MemoryFillConfig) : List UInt8 :=
  config.valueBytes.take config.fillSurface.fillSize

/-- The byte of the pattern at an address. -/
def byteAt (config : MemoryFillConfig) (a : Nat) : UInt8 :=
  config.pattern.getD ((a - config.getStartAddress.toNat) % config.pattern.length) 0

/-- The address is in the range of the fill. -/
def Contains (config : MemoryFillConfig) (a : Nat) : Prop :=
  config.getStartAddress.toNat ≤ a ∧ a < config.getEndAddress.toNat

instance (config : MemoryFillConfig) (a : Nat) : Decidable (config.Contains a) :=
  inferInstanceAs (Decidable (_ ∧ _))

/-- A start and an end that are physical addresses, the start first. -/
structure Valid (config : MemoryFillConfig) : Prop where
  lt : config.getStartAddress.toNat < config.getEndAddress.toNat
  start : (getPhysicalRef config.getStartAddress.toNat).isSome
  stop : (getPhysicalRef config.getEndAddress.toNat).isSome

/-- The start and the end are in one area. -/
def SameArea (config : MemoryFillConfig) : Prop :=
  (getPhysicalRef config.getStartAddress.toNat).map MemoryRef.area =
    (getPhysicalRef config.getEndAddress.toNat).map MemoryRef.area

instance (config : MemoryFillConfig) : Decidable config.SameArea :=
  inferInstanceAs (Decidable (_ = _))

/-- Memory with the whole range filled. -/
def filled (config : MemoryFillConfig) (mem : GuestMemory) : GuestMemory :=
  fun a => if config.Contains a then config.byteAt a else mem a

variable {config : MemoryFillConfig}

theorem fillSize_bounds (config : MemoryFillConfig) :
    2 ≤ config.fillSurface.fillSize ∧ config.fillSurface.fillSize ≤ 4 := by
  show 2 ≤ (if config.fill32bit then 4 else if config.fill24bit then 3 else 2) ∧
    (if config.fill32bit then 4 else if config.fill24bit then 3 else 2) ≤ 4
  split_ifs <;> decide

/-- Addresses of registers are multiples of eight bytes. -/
theorem dvd_length (config : MemoryFillConfig) :
    8 ∣ config.getEndAddress.toNat - config.getStartAddress.toNat := by
  have hstart : config.getStartAddress.toNat % 8 = 0 := by
    rw [getStartAddress, UInt32.toNat_mul, Nat.mod_mod_of_dvd _ (by decide)]
    exact Nat.mul_mod_left _ _
  have hend : config.getEndAddress.toNat % 8 = 0 := by
    rw [getEndAddress, UInt32.toNat_mul, Nat.mod_mod_of_dvd _ (by decide)]
    exact Nat.mul_mod_left _ _
  omega

/-- A value of one byte only. -/
theorem getD_take_valueBytes (config : MemoryFillConfig)
    (h : ∀ byte ∈ config.valueBytes, byte = config.value32bit.toUInt8) {n k : Nat} (hk : k < n)
    (hn : n ≤ 4) : (config.valueBytes.take n).getD k 0 = config.value32bit.toUInt8 := by
  have hlt : k < (config.valueBytes.take n).length := by
    rw [List.length_take, length_valueBytes]
    omega
  rw [List.getD_eq_getElem?_getD, List.getElem?_eq_getElem hlt]
  exact h _ (List.mem_of_mem_take (List.getElem_mem hlt))

/-- The pointers of a fill in one area. -/
theorem Valid.refs (hvalid : config.Valid) (harea : config.SameArea) :
    ∃ start stop, getPhysicalRef config.getStartAddress.toNat = some start ∧
      getPhysicalRef config.getEndAddress.toNat = some stop ∧ start.area = stop.area ∧
      start.address = config.getStartAddress.toNat ∧ stop.offset ≤ start.area.size ∧
      stop.offset = start.offset +
        (config.getEndAddress.toNat - config.getStartAddress.toNat) := by
  obtain ⟨start, hstart⟩ := Option.isSome_iff_exists.mp hvalid.start
  obtain ⟨stop, hstop⟩ := Option.isSome_iff_exists.mp hvalid.stop
  have hsame : start.area = stop.area := by
    rw [SameArea, hstart, hstop] at harea
    exact Option.some.inj harea
  have hlt := hvalid.lt
  have hstart' := address_getPhysicalRef hstart
  have hstop' := address_getPhysicalRef hstop
  have hsize := (getSize_getPhysicalRef hstop).1
  refine ⟨start, stop, hstart, hstop, hsame, hstart', hsame ▸ hsize, ?_⟩
  rw [MemoryRef.address] at hstart' hstop'
  rw [hsame] at hstart'
  omega

end MemoryFillConfig

/-- A surface that stands for a fill. -/
structure IsFill (config : MemoryFillConfig) (s : Surface) : Prop where
  addr : s.addr = config.getStartAddress
  endAddr : s.endAddr = config.getEndAddress
  type : s.type = .fill
  fillData : s.fillData = config.valueBytes
  fillSize : s.fillSize = config.fillSurface.fillSize
  valid : s.invalidRegions.toFinset = ∅

/-- The surface of a fill downloads its pattern. -/
theorem IsFill.downloadFillSurface {config : MemoryFillConfig} {s : Surface} (h : IsFill config s)
    (hvalid : config.Valid) (harea : config.SameArea) {interval : Interval}
    (hlower : config.getStartAddress.toNat ≤ interval.lower)
    (hlt : interval.lower ≤ interval.upper)
    (hupper : interval.upper ≤ config.getEndAddress.toNat) (mem : GuestMemory) :
    downloadFillSurface s interval mem = .ok fun a =>
      if interval.lower ≤ a ∧ a < interval.upper then config.byteAt a else mem a := by
  obtain ⟨start, stop, hstart, -, -, -, hsize, hoffset⟩ := hvalid.refs harea
  have hbounds := config.fillSize_bounds
  have hlength : s.fillData.length = 4 := by rw [h.fillData, config.length_valueBytes]
  rw [downloadFillSurface_eq (by rw [h.fillSize]; omega) (by rw [h.fillSize, hlength]; omega)
    (by rw [h.addr]; exact hstart) (by rw [h.addr]; exact hlower) hlt
    (by rw [h.endAddr]; exact hupper) (by rw [h.addr]; omega), h.fillData, h.fillSize, h.addr]
  rfl

theorem IsFill.isRegionValid {config : MemoryFillConfig} {s : Surface} (h : IsFill config s)
    (interval : Interval) : s.isRegionValid interval = true := by
  have hdisjoint : s.invalidRegions.intersects interval = false :=
    IntervalSet.intersects_iff.mpr (h.valid ▸ Finset.disjoint_empty_left _)
  rw [Surface.isRegionValid, hdisjoint]
  rfl

/-- The range of a fill belongs to its surface, except where memory has the pattern already. Memory
is as it was elsewhere. -/
structure Pending (config : MemoryFillConfig) (id : Nat) (old : GuestMemory) (c : FillCache)
    (mem : GuestMemory) : Prop where
  surface : ∃ s, c.slotSurfaces.get id = some s ∧ IsFill config s
  owned : ∀ a, c.dirtyRegions.get a = some id → config.Contains a
  filled : ∀ a, config.Contains a →
    c.dirtyRegions.get a = some id ∨ c.dirtyRegions.get a = none ∧ mem a = config.byteAt a
  outside : ∀ a, ¬config.Contains a → mem a = old a

section Flushes

variable {config : MemoryFillConfig} {others : OtherSurfaces} {id : Nat} {old mem : GuestMemory}
  {c : FillCache} {slots : SlotVector Surface} {size addr : UInt32} {flushInterval : Interval}

/-- Segments of the fill are flushed: their parts get the pattern. -/
theorem foldlM_flushSegment (hvalid : config.Valid) (harea : config.SameArea)
    (hslot : ∃ s, slots.get id = some s ∧ IsFill config s) (segments : List (Interval × Nat))
    (hsegments : ∀ segment ∈ segments, segment.2 = id ∧
      config.getStartAddress.toNat ≤ (flushPart size flushInterval segment.1).lower ∧
      (flushPart size flushInterval segment.1).lower ≤
        (flushPart size flushInterval segment.1).upper ∧
      (flushPart size flushInterval segment.1).upper ≤ config.getEndAddress.toNat)
    (flushed : IntervalSet) (mem : GuestMemory) :
    ∃ flushed', segments.foldlM (flushSegment others slots size flushInterval)
        (flushed, mem) = .ok (flushed', fun a =>
          if a ∈ Interval.cover (segments.map fun segment =>
            flushPart size flushInterval segment.1) then config.byteAt a else mem a) ∧
      flushed'.toFinset = flushed.toFinset ∪ Interval.cover (segments.map fun segment =>
        flushPart size flushInterval segment.1) := by
  induction segments generalizing flushed mem with
  | nil => exact ⟨flushed, rfl, (Finset.union_empty _).symm⟩
  | cons segment segments ih =>
    obtain ⟨⟨hid, hlower, hlt, hupper⟩, hrest⟩ := List.forall_mem_cons.mp hsegments
    have hstep : flushSegment others slots size flushInterval (flushed, mem) segment =
        .ok (flushed.add (flushPart size flushInterval segment.1), fun a =>
          if (flushPart size flushInterval segment.1).lower ≤ a ∧
              a < (flushPart size flushInterval segment.1).upper then config.byteAt a
          else mem a) := by
      obtain ⟨s, hs, hfill⟩ := hslot
      rw [flushSegment, hid, hs]
      simp only [hfill.isRegionValid, if_true, hfill.type,
        hfill.downloadFillSurface hvalid harea hlower hlt hupper mem]
      rfl
    obtain ⟨flushed', hfold, hunion⟩ := ih hrest
      (flushed.add (flushPart size flushInterval segment.1)) _
    refine ⟨flushed', ?_, ?_⟩
    · rw [List.foldlM_cons, hstep]
      refine hfold.trans (congrArg (fun m => Except.ok (flushed', m)) (funext fun a => ?_))
      rw [List.map_cons, Interval.cover_cons]
      simp only [Finset.mem_union, Interval.mem_toFinset]
      split_ifs <;> first | rfl | tauto
    · rw [hunion, IntervalSet.toFinset_add, List.map_cons, Interval.cover_cons, Finset.union_assoc]

/-- A segment that has a number of the range in common with a flush is one of the fill, and so is
the part of it that is flushed. -/
theorem Pending.segment (h : Pending config id old c mem) {i : Interval}
    (hi : ∀ a, i.lower ≤ a → a < i.upper → config.Contains a) {segment : Interval × Nat}
    (hsegment : segment ∈ c.dirtyRegions.overlapping i) : segment.2 = id ∧
      config.getStartAddress.toNat ≤ (flushPart size i segment.1).lower ∧
      (flushPart size i segment.1).lower ≤
        (flushPart size i segment.1).upper ∧
      (flushPart size i segment.1).upper ≤ config.getEndAddress.toNat := by
  obtain ⟨hmem, hoverlap⟩ := List.mem_filter.mp hsegment
  have hoverlap := of_decide_eq_true hoverlap
  -- a number of both
  have hget := c.dirtyRegions.get_of_mem hmem (x := max segment.1.lower i.lower) (by omega)
  have hid : segment.2 = id := by
    rcases h.filled _ (hi (max segment.1.lower i.lower) (by omega) (by omega)) with hown | ⟨hnone, -⟩
    · exact Option.some.inj (hget.symm.trans hown)
    · rw [hget] at hnone
      cases hnone
  have hfirst := h.owned _ (hid ▸ c.dirtyRegions.get_of_mem hmem (x := segment.1.lower) (by omega))
  have hlast := h.owned _
    (hid ▸ c.dirtyRegions.get_of_mem hmem (x := segment.1.upper - 1) (by omega))
  refine ⟨hid, ?_⟩
  unfold flushPart
  unfold MemoryFillConfig.Contains at hfirst hlast
  split_ifs
  · omega
  · rw [lower_meet, upper_meet]
    omega

/-- A flush of a part of the range leaves the pattern there. -/
theorem Pending.flushRegion (hvalid : config.Valid) (harea : config.SameArea)
    (h : Pending config id old c mem) (hstart : config.getStartAddress.toNat ≤ addr.toNat)
    (hstop : addr.toNat + size.toNat ≤ config.getEndAddress.toNat) :
    ∃ c' mem', c.flushRegion others addr size mem = .ok (c', mem') ∧
      Pending config id old c' mem' ∧
      (∀ a, c.dirtyRegions.get a = none → c'.dirtyRegions.get a = none) ∧
      ∀ a, addr.toNat ≤ a → a < addr.toNat + size.toNat → c'.dirtyRegions.get a = none := by
  rw [FillCache.flushRegion]
  split_ifs with hzero
  · subst hzero
    refine ⟨c, mem, rfl, h, fun _ h => h, fun a hlower hupper => ?_⟩
    have hsize : (0 : UInt32).toNat = 0 := rfl
    omega
  · have hend := config.getEndAddress.toNat_lt
    have hsum : (addr + size).toNat = addr.toNat + size.toNat := by
      rw [UInt32.toNat_add, Nat.mod_eq_of_lt (by omega)]
    generalize hflush : span addr (addr + size) = flushInterval
    have hlower : flushInterval.lower = addr.toNat := by rw [← hflush, lower_span]
    have hupper : flushInterval.upper = addr.toNat + size.toNat := by
      rw [← hflush, upper_span, hsum]
    have hi : ∀ a, flushInterval.lower ≤ a → a < flushInterval.upper → config.Contains a :=
      fun a hl hu => ⟨by omega, by omega⟩
    obtain ⟨flushed, hfold, hcover⟩ := (@foldlM_flushSegment _ others _ _ size)
      hvalid harea h.surface (c.dirtyRegions.overlapping flushInterval)
      (fun segment hsegment => h.segment hi hsegment) .empty mem
    rw [IntervalSet.toFinset_empty, Finset.empty_union] at hcover
    rw [← hcover] at hfold
    have hget : ∀ a, (c.dirtyRegions.eraseSet flushed).get a =
        if a ∈ flushed.toFinset then none else c.dirtyRegions.get a :=
      IntervalMap.get_eraseSet _ _
    have hinside : ∀ a, a ∈ flushed.toFinset → config.Contains a := by
      intro a ha
      rw [hcover, Interval.mem_cover] at ha
      obtain ⟨part, hpart, hl, hu⟩ := ha
      obtain ⟨segment, hsegment, rfl⟩ := List.mem_map.mp hpart
      obtain ⟨-, hpartLower, -, hpartUpper⟩ := (@Pending.segment _ _ _ _ _ size) h hi hsegment
      exact ⟨by omega, by omega⟩
    have hflushed : ∀ a, flushInterval.lower ≤ a → a < flushInterval.upper →
        c.dirtyRegions.get a = some id → a ∈ flushed.toFinset := by
      intro a hl hu ha
      obtain ⟨segment, hsegment, -, hsl, hsu⟩ := IntervalMap.mem_of_look ha
      have hoverlap : segment ∈ c.dirtyRegions.overlapping flushInterval :=
        List.mem_filter.mpr ⟨hsegment, decide_eq_true (by omega)⟩
      rw [hcover, Interval.mem_cover]
      refine ⟨_, List.mem_map_of_mem hoverlap, ?_⟩
      unfold flushPart
      split_ifs
      · exact ⟨hsl, hsu⟩
      · rw [lower_meet, upper_meet]
        omega
    dsimp only
    rw [hfold]
    refine ⟨_, _, rfl, ⟨h.surface, fun a ha => ?_, fun a ha => ?_, fun a ha => ?_⟩,
      fun a ha => ?_, fun a hl hu => ?_⟩
    · rw [hget] at ha
      split_ifs at ha
      exact h.owned a ha
    · by_cases hin : a ∈ flushed.toFinset
      · exact .inr ⟨by rw [hget, if_pos hin], if_pos hin⟩
      · rw [hget, if_neg hin]
        exact (h.filled a ha).imp_right fun ⟨hnone, hbyte⟩ => ⟨hnone, (if_neg hin).trans hbyte⟩
    · exact (if_neg fun hin => ha (hinside a hin)).trans (h.outside a ha)
    · rw [hget, ha, ite_self]
    · rw [hget]
      split_ifs with hin
      · rfl
      · rcases h.filled a (hi a (by omega) (by omega)) with hown | ⟨hnone, -⟩
        · exact absurd (hflushed a (by omega) (by omega) hown) hin
        · exact hnone

/-- Flushes that cover the range, each of a part of it. -/
def Splits (config : MemoryFillConfig) (flushes : List (UInt32 × UInt32)) : Prop :=
  (∀ flush ∈ flushes, config.getStartAddress.toNat ≤ flush.1.toNat ∧
    flush.1.toNat + flush.2.toNat ≤ config.getEndAddress.toNat) ∧
  ∀ a, config.Contains a →
    ∃ flush ∈ flushes, flush.1.toNat ≤ a ∧ a < flush.1.toNat + flush.2.toNat

theorem Pending.flushRegions (hvalid : config.Valid) (harea : config.SameArea)
    (h : Pending config id old c mem) {flushes : List (UInt32 × UInt32)}
    (hflushes : ∀ flush ∈ flushes, config.getStartAddress.toNat ≤ flush.1.toNat ∧
      flush.1.toNat + flush.2.toNat ≤ config.getEndAddress.toNat) :
    ∃ c' mem', c.flushRegions others mem flushes = .ok (c', mem') ∧ Pending config id old c' mem' ∧
      (∀ a, c.dirtyRegions.get a = none → c'.dirtyRegions.get a = none) ∧
      ∀ flush ∈ flushes, ∀ a, flush.1.toNat ≤ a → a < flush.1.toNat + flush.2.toNat →
        c'.dirtyRegions.get a = none := by
  induction flushes generalizing c mem with
  | nil => exact ⟨c, mem, rfl, h, fun _ h => h, fun _ hmem => absurd hmem List.not_mem_nil⟩
  | cons flush flushes ih =>
    obtain ⟨⟨hstart, hstop⟩, hrest⟩ := List.forall_mem_cons.mp hflushes
    obtain ⟨c₁, mem₁, hflush, hpending, hkeep, hclean⟩ :=
      (@Pending.flushRegion _ others) hvalid harea h hstart hstop
    obtain ⟨c₂, mem₂, hflushes', hpending', hkeep', hclean'⟩ := ih hpending hrest
    refine ⟨c₂, mem₂, ?_, hpending', fun a ha => hkeep' a (hkeep a ha), ?_⟩
    · rw [FillCache.flushRegions, hflush]
      exact hflushes'
    · exact List.forall_mem_cons.mpr ⟨fun a hl hu => hkeep' a (hclean a hl hu), hclean'⟩

end Flushes

/-! ## Agreement -/

/-- A cache whose slots are as they should be, and whose dirty regions have surfaces. -/
structure ReadyCache extends FillCache where
  ok : slotSurfaces.Ok
  allocated : ∀ a id, dirtyRegions.get a = some id → slotSurfaces.get id ≠ none

section Agreement

open MemoryFillConfig

variable {config : MemoryFillConfig} {others : OtherSurfaces} {mem : GuestMemory}

/-- Behind `AccelerateFill` all of the range belongs to the new surface. -/
theorem pending_accelerateFill (hvalid : config.Valid) (c : ReadyCache) (mem : GuestMemory) :
    ∃ c' id, c.toFillCache.accelerateFill others config = .ok c' ∧ Pending config id mem c' mem := by
  obtain ⟨-, hfree, hget⟩ := c.ok.insert config.fillSurface
  rw [FillCache.accelerateFill]
  generalize c.slotSurfaces.insert config.fillSurface = inserted at hfree hget
  obtain ⟨id, slots⟩ := inserted
  have hslot : slots.get id = some config.fillSurface := (hget id).trans (if_pos rfl)
  have hend : config.fillSurface.addr + config.fillSurface.size = config.getEndAddress := by
    show config.getStartAddress + (config.getEndAddress - config.getStartAddress) = _
    rw [UInt32.add_comm, UInt32.sub_add_cancel]
  have hsize : config.fillSurface.size ≠ 0 := by
    intro hzero
    rw [hzero, UInt32.add_zero] at hend
    exact absurd (congrArg UInt32.toNat hend) hvalid.lt.ne
  have hchecks : config.fillSurface.type ≠ .texture ∧
      config.fillSurface.addr ≥ config.fillSurface.addr ∧
      config.getEndAddress ≤ config.fillSurface.endAddr ∧
      config.fillSurface.width = config.fillSurface.stride :=
    ⟨nofun, UInt32.le_refl _, UInt32.le_refl _, rfl⟩
  dsimp only
  rw [FillCache.invalidateRegion, if_neg hsize]
  simp only [hslot, if_pos hchecks, hend]
  refine ⟨_, id, rfl, ⟨config.fillSurface.markValid (span config.fillSurface.addr
    config.getEndAddress), ?_, ⟨rfl, rfl, rfl, rfl, rfl, ?_⟩⟩,
    fun a ha => ?_, fun a ha => ?_, fun _ _ => rfl⟩
  · rw [others.get_invalidate, SlotVector.get_modify, if_pos rfl, hslot]
    rfl
  · show (IntervalSet.sub .empty _).toFinset = ∅
    rw [IntervalSet.toFinset_sub, IntervalSet.toFinset_empty, Finset.empty_sdiff]
  · -- the slot of the new surface was free, so nothing belonged to it before
    rw [IntervalMap.get_set fun _ _ heq => eq_of_beq heq] at ha
    split_ifs at ha with hin
    · exact hin
    · exact absurd hfree (c.allocated a id ha)
  · rw [IntervalMap.get_set fun _ _ heq => eq_of_beq heq]
    exact .inl (if_pos ha)

/-- The blitter fills the range where whole patterns end with it, and a value of both widths has one
byte only. -/
theorem memoryFill_eq (hvalid : config.Valid) (harea : config.SameArea)
    (hwhole : config.fill24bit → 3 ∣ config.getEndAddress.toNat - config.getStartAddress.toNat)
    (hboth : config.fill24bit → config.fill32bit →
      ∀ byte ∈ config.valueBytes, byte = config.value32bit.toUInt8) (mem : GuestMemory) :
    memoryFill config mem = .ok (config.filled mem) := by
  obtain ⟨start, stop, hstart, hstop, hsame, haddress, hfit, hoffset⟩ := hvalid.refs harea
  have hlt := hvalid.lt
  have height := config.dvd_length
  generalize hlength : config.getEndAddress.toNat - config.getStartAddress.toNat = length
    at hwhole hoffset height
  have hsum : start.address + length = config.getEndAddress.toNat := by omega
  have hfilled : fillPattern config.pattern start.address start.address (start.address + length)
      mem = config.filled mem := by
    rw [hsum, haddress]
    rfl
  rw [memoryFill, hstart, hstop]
  simp only [if_neg (UInt32.not_le.mpr (UInt32.lt_iff_toNat_lt.mpr hlt)), if_neg (not_not.mpr hsame),
    hoffset, Nat.add_sub_cancel_left]
  rw [← hfilled]
  split_ifs with h24 h32
  · refine ((@strideLoop_write (config.valueBytes.take 3)) (by decide : 0 < 3) (hwhole h24)
      (by omega)).trans (congrArg Except.ok (fillPattern_congr fun k => ?_))
    cases h32 : config.fill32bit with
    | false => simp [pattern, fillSurface, h24, h32]
    | true =>
      have hpattern : config.pattern = config.valueBytes.take 4 := by
        simp [pattern, fillSurface, h32]
      rw [hpattern]
      exact (config.getD_take_valueBytes (hboth h24 h32) (Nat.mod_lt k (by decide : 0 < 3))
        (by decide)).trans (config.getD_take_valueBytes (hboth h24 h32)
          (Nat.mod_lt k (by decide : 0 < 4)) (Nat.le_refl 4)).symm
  · have hpattern : config.pattern = config.valueBytes := by
      simp [pattern, fillSurface, h32]
    have hcount : length / 4 * config.valueBytes.length = length :=
      Nat.div_mul_cancel (Nat.dvd_trans (by decide : 4 ∣ 8) height)
    have hloop := (@strideLoop_write_index config.valueBytes mem start (length / 4)) (by omega)
    rw [hcount] at hloop
    rw [hpattern]
    exact hloop
  · have hpattern : config.pattern = config.valueBytes.take 2 := by
      simp [pattern, fillSurface, h24, h32]
    rw [hpattern]
    exact (@strideLoop_write (config.valueBytes.take 2)) (by decide : 0 < 2)
      (Nat.dvd_trans (by decide : 2 ∣ 8) height) (by omega)

/-- For any contents of the cache and of memory, and any flushes that cover the range, the cache
leaves what the blitter does, and nothing outside of the range is changed. The download of a part of
the range writes the bytes of the pattern there, and nothing else. -/
def Agrees (config : MemoryFillConfig) : Prop :=
  (∀ (others : OtherSurfaces) (c : ReadyCache) (mem : GuestMemory)
      (flushes : List (UInt32 × UInt32)), Splits config flushes → ∃ mem' c₁ c₂,
    memoryFill config mem = .ok mem' ∧ c.toFillCache.accelerateFill others config = .ok c₁ ∧
      c₁.flushRegions others mem flushes = .ok (c₂, mem') ∧
      ∀ a, ¬config.Contains a → mem' a = mem a) ∧
  ∀ (mem : GuestMemory) (interval : Interval), config.getStartAddress.toNat ≤ interval.lower →
    interval.lower ≤ interval.upper → interval.upper ≤ config.getEndAddress.toNat →
    downloadFillSurface config.fillSurface interval mem = .ok fun a =>
      if interval.lower ≤ a ∧ a < interval.upper then config.byteAt a else mem a

theorem isFill_fillSurface (config : MemoryFillConfig) : IsFill config config.fillSurface :=
  ⟨rfl, rfl, rfl, rfl, rfl, IntervalSet.toFinset_empty⟩

/-- Behind flushes of the whole range memory is filled. -/
theorem flushRegions_accelerateFill (hvalid : config.Valid) (harea : config.SameArea)
    (c : ReadyCache) {flushes : List (UInt32 × UInt32)} (hsplits : Splits config flushes) :
    ∃ c₁ c₂, c.toFillCache.accelerateFill others config = .ok c₁ ∧
      c₁.flushRegions others mem flushes = .ok (c₂, config.filled mem) := by
  obtain ⟨c₁, id, haccelerate, hpending⟩ := (@pending_accelerateFill _ others) hvalid c mem
  obtain ⟨c₂, mem', hflushes, hflushed, -, hclean⟩ :=
    (@Pending.flushRegions _ others) hvalid harea hpending hsplits.1
  have hmem : mem' = config.filled mem := by
    funext a
    unfold filled
    split_ifs with hin
    · obtain ⟨flush, hflush, hlower, hupper⟩ := hsplits.2 a hin
      rcases hflushed.filled a hin with hown | ⟨-, hbyte⟩
      · rw [hclean flush hflush a hlower hupper] at hown
        cases hown
      · exact hbyte
    · exact hflushed.outside a hin
  exact ⟨c₁, c₂, haccelerate, hmem ▸ hflushes⟩

/-- A cache with nothing in it. -/
def ReadyCache.empty : ReadyCache where
  slotSurfaces := ⟨[], []⟩
  dirtyRegions := .empty
  ok := SlotVector.ok_empty
  allocated _ _ h := nomatch h

/-- Surfaces that nothing is done to. -/
def OtherSurfaces.none : OtherSurfaces where
  invalidate _ _ slots := slots
  get_invalidate _ _ _ := rfl
  download _ _ mem := .ok mem

/-- One flush of the range. -/
theorem splits_one (hvalid : config.Valid) : Splits config
    [(config.getStartAddress, config.getEndAddress - config.getStartAddress)] := by
  have hlt := hvalid.lt
  have hsize : (config.getEndAddress - config.getStartAddress).toNat =
      config.getEndAddress.toNat - config.getStartAddress.toNat :=
    UInt32.toNat_sub_of_le _ _ (UInt32.le_iff_toNat_le.mpr hlt.le)
  constructor
  · intro flush hflush
    obtain rfl := List.mem_singleton.mp hflush
    dsimp only
    omega
  · intro a ha
    refine ⟨_, List.mem_singleton.mpr rfl, ha.1, ?_⟩
    have hupper := ha.2
    dsimp only
    omega

/-- What the blitter leaves for three bytes is more than the range, where they do not divide it. -/
theorem of_memoryFill_three (hvalid : config.Valid) (harea : config.SameArea)
    (h24 : config.fill24bit) {mem' : GuestMemory} (hfill : memoryFill config mem = .ok mem') :
    ∃ i, config.getEndAddress.toNat - config.getStartAddress.toNat ≤ i ∧ 3 ∣ i ∧
      mem' = fillPattern (config.valueBytes.take 3) config.getStartAddress.toNat
        config.getStartAddress.toNat (config.getStartAddress.toNat + i) mem := by
  obtain ⟨start, stop, hstart, hstop, hsame, haddress, -, hoffset⟩ := hvalid.refs harea
  rw [memoryFill, hstart, hstop] at hfill
  simp only [if_neg (UInt32.not_le.mpr (UInt32.lt_iff_toNat_lt.mpr hvalid.lt)),
    if_neg (not_not.mpr hsame), hoffset, Nat.add_sub_cancel_left, h24, if_true] at hfill
  obtain ⟨i, hle, hi, rfl⟩ := (@of_strideLoop_write (config.valueBytes.take 3))
    (by decide : 0 < 3) hfill
  exact ⟨i, hle, hi, by rw [haddress]⟩

/-- A fill with three bytes has whole patterns, or the byte behind the range is changed. -/
theorem Agrees.whole (hagrees : Agrees config) (hvalid : config.Valid) (harea : config.SameArea)
    (h24 : config.fill24bit) :
    3 ∣ config.getEndAddress.toNat - config.getStartAddress.toNat := by
  -- memory that has another byte behind the range
  obtain ⟨mem', -, -, hfill, -, -, houtside⟩ := hagrees.1 .none .empty (fun _ =>
    (config.valueBytes.take 3).getD
      ((config.getEndAddress.toNat - config.getStartAddress.toNat) % 3) 0 + 1) _ (splits_one hvalid)
  obtain ⟨i, hle, hi, rfl⟩ := of_memoryFill_three hvalid harea h24 hfill
  rcases Nat.eq_or_lt_of_le hle with heq | hlt
  · exact heq ▸ hi
  · have hbyte := houtside config.getEndAddress.toNat fun hin => Nat.lt_irrefl _ hin.2
    have hend := hvalid.lt
    rw [fillPattern, if_pos (by omega)] at hbyte
    exact absurd hbyte (by simp)

/-- The cache and the blitter agree where the range is in one area, a fill with three bytes has
whole patterns, and a fill with both flags, which the two look at in a different order, has one byte
for a value. -/
theorem agrees_iff (config : MemoryFillConfig) (hvalid : config.Valid) : Agrees config ↔
    config.SameArea ∧
      (config.fill24bit → 3 ∣ config.getEndAddress.toNat - config.getStartAddress.toNat) ∧
      (config.fill24bit → config.fill32bit →
        ∀ byte ∈ config.valueBytes, byte = config.value32bit.toUInt8) := by
  constructor
  · intro hagrees
    have hrun := fun mem => hagrees.1 .none .empty mem _ (splits_one hvalid)
    have harea : config.SameArea := by
      obtain ⟨start, hstart⟩ := Option.isSome_iff_exists.mp hvalid.start
      obtain ⟨stop, hstop⟩ := Option.isSome_iff_exists.mp hvalid.stop
      by_contra hdiffer
      rw [SameArea, hstart, hstop] at hdiffer
      obtain ⟨mem', -, -, hfill, -⟩ := hrun fun _ => 0
      rw [memoryFill, hstart, hstop] at hfill
      simp only [if_neg (UInt32.not_le.mpr (UInt32.lt_iff_toNat_lt.mpr hvalid.lt)),
        if_pos fun heq => hdiffer (congrArg some heq)] at hfill
      cases hfill
    have hwhole := fun h24 => hagrees.whole hvalid harea h24
    refine ⟨harea, hwhole, fun h24 h32 => ?_⟩
    obtain ⟨mem', c₁, c₂, hfill, haccelerate, hflushes, -⟩ := hrun fun _ => 0
    obtain ⟨i, hle, hi, rfl⟩ := of_memoryFill_three hvalid harea h24 hfill
    obtain ⟨c₁', c₂', haccelerate', hflushes'⟩ :=
      (@flushRegions_accelerateFill _ .none (fun _ => 0)) hvalid harea .empty
        (splits_one hvalid)
    obtain rfl := Except.ok.inj (haccelerate.symm.trans haccelerate')
    have hsame := (Prod.mk.inj (Except.ok.inj (hflushes.symm.trans hflushes'))).2
    have hlt := hvalid.lt
    have height := config.dvd_length
    have hthree := hwhole h24
    have hlength : 24 ≤ config.getEndAddress.toNat - config.getStartAddress.toNat := by omega
    have hpattern : config.pattern = config.valueBytes := by simp [pattern, fillSurface, h32]
    have hphase : ∀ k, k < 24 →
        (config.valueBytes.take 3).getD (k % 3) 0 = config.valueBytes.getD (k % 4) 0 := by
      intro k hk
      have hbyte := congrFun hsame (config.getStartAddress.toNat + k)
      rw [fillPattern, if_pos (by omega), filled, if_pos ⟨by omega, by omega⟩,
        MemoryFillConfig.byteAt, hpattern, Nat.add_sub_cancel_left] at hbyte
      exact hbyte
    have hthird : (config.value32bit >>> 8).toUInt8 = (config.value32bit >>> 16).toUInt8 :=
      (hphase 5 (by decide)).symm
    have hsecond : (config.value32bit >>> 8).toUInt8 = config.value32bit.toUInt8 :=
      hphase 4 (by decide)
    have hfourth : (config.value32bit >>> 24).toUInt8 = config.value32bit.toUInt8 :=
      (hphase 3 (by decide)).symm
    intro byte hbyte
    simp only [valueBytes, List.mem_cons, List.not_mem_nil, or_false] at hbyte
    rcases hbyte with rfl | rfl | rfl | rfl
    · rfl
    · exact hsecond
    · exact hthird.symm.trans hsecond
    · exact hfourth
  · rintro ⟨harea, hwhole, hboth⟩
    constructor
    · intro others c mem flushes hsplits
      obtain ⟨c₁, c₂, haccelerate, hflushes⟩ :=
        (@flushRegions_accelerateFill _ others mem) hvalid harea c hsplits
      exact ⟨config.filled mem, c₁, c₂, memoryFill_eq hvalid harea hwhole hboth mem, haccelerate,
        hflushes, fun a ha => if_neg ha⟩
    · intro mem interval hlower hlt hupper
      exact (isFill_fillSurface config).downloadFillSurface hvalid harea hlower hlt hupper mem

/-- Twenty-four bytes of VRAM that are filled three at a time. -/
theorem agrees_iff_vram : Agrees ⟨0x3000000, 0x3000003, 0x00CCBBAA, true, false⟩ :=
  (agrees_iff ⟨0x3000000, 0x3000003, 0x00CCBBAA, true, false⟩ ⟨by decide, by decide, by decide⟩).mpr
    ⟨by decide, fun _ => by decide, fun _ h32 => nomatch h32⟩

/-- Eight bytes of VRAM are no whole number of patterns of three: the blitter writes one byte behind
them. -/
theorem not_agrees : ¬Agrees ⟨0x3000000, 0x3000001, 0x00CCBBAA, true, false⟩ := fun hagrees =>
  absurd (hagrees.whole ⟨by decide, by decide, by decide⟩ (by decide) rfl) (by decide)

end Agreement

end GbaStation.Rasterizer
