import GbaStation.FileSys.Lzss

/-!
# Streams are unpacked (`core/file_sys/ncch_container.cpp`)

`LZSS_Decompress` on a stream with a consistent footer. The bytes of the stream that are left are
below the index in reverse order, and the output from `out` on is what the tokens so far unpack.

- `lzssDecompress_iff`: all accesses are inside, the loop ends and streams are unpacked, exactly if the
  footer is inside.
-/

namespace GbaStation.FileSys

open RingCells (sub64)
open List (length_cons append_assoc length_append)

/-! ## Lengths -/

theorem LzssToken.length_copyBack (distance n : Nat) :
    ∀ {tail : List Byte}, (copyBack distance n tail).length = tail.length + n := by
  induction n with
  | zero => exact fun {_} => rfl
  | succ n ih =>
    intro tail
    rw [copyBack, ih, length_cons]
    omega

open LzssToken (length_copyBack copyBack reference literal)

theorem length_le_expandTokens (tokens : List LzssToken) :
    ∀ {tail : List Byte}, tail.length ≤ (expandTokens tokens tail).length := by
  induction tokens with
  | nil => exact fun {_} => Nat.le_refl _
  | cons t tokens ih =>
    intro tail
    have htoken : tail.length ≤ (t.expand tail).length := by
      cases t with
      | literal value => exact Nat.le_succ _
      | reference length distance =>
        rw [LzssToken.expand, length_copyBack]
        exact Nat.le_add_right _ _
    exact htoken.trans ih

theorem tokensFit_append (xs ys : List LzssToken) :
    ∀ {tail : List Byte}, TokensFit (xs ++ ys) tail ↔
      TokensFit xs tail ∧ TokensFit ys (expandTokens xs tail) := by
  induction xs with
  | nil => exact fun {_} => ⟨fun h => ⟨trivial, h⟩, And.right⟩
  | cons t xs ih =>
    intro tail
    rw [List.cons_append, TokensFit, TokensFit, ih, and_assoc]
    rfl

/-! ## The invariant -/

/-- The bytes `left` are still to be read, and `tail` is unpacked. `before` is the output before
anything was unpacked. -/
structure Reading (compressed initial before left tail : List Byte) (s : LzssState) : Prop where
  stream : ∃ post, compressed = initial ++ (left.reverse ++ post)
  index : s.index = initial.length + left.length
  out : s.out + tail.length = before.length
  decompressed : s.decompressed = before.take s.out ++ tail

section Reading

variable {compressed initial before left tail : List Byte} {s : LzssState} {a b : Byte}

theorem byteAt_split {xs post : List Byte} : byteAt (xs ++ b :: post) xs.length = .ok b := by
  rw [byteAt, List.getElem?_append_right (Nat.le_refl _), Nat.sub_self]
  rfl

theorem Reading.read (h : Reading compressed initial before (b :: left) tail s) :
    byteAt compressed (s.index - 1) = .ok b := by
  obtain ⟨post, hstream⟩ := h.stream
  have hsplit : compressed = (initial ++ left.reverse) ++ b :: post := by
    rw [hstream, List.reverse_cons, append_assoc, append_assoc]
    rfl
  have hindex : s.index - 1 = (initial ++ left.reverse).length := by
    rw [h.index, length_append, List.length_reverse, length_cons]
    omega
  rw [hsplit, hindex]
  exact byteAt_split

/-- A byte is read. -/
theorem Reading.next (h : Reading compressed initial before (b :: left) tail s) :
    Reading compressed initial before left tail { s with index := s.index - 1 } where
  stream := by
    obtain ⟨post, hstream⟩ := h.stream
    refine ⟨b :: post, ?_⟩
    rw [hstream, List.reverse_cons, append_assoc]
    rfl
  index := by
    show s.index - 1 = _
    rw [h.index, length_cons]
    omega
  out := h.out
  decompressed := h.decompressed

/-- A byte in front of what is unpacked. -/
theorem storeByte_front {out : Nat} (hpos : 0 < out) (hout : out + tail.length = before.length) :
    storeByte (before.take out ++ tail) (out - 1) b = .ok (before.take (out - 1) ++ b :: tail) := by
  have hlen : (before.take out).length = out := by
    rw [List.length_take]
    omega
  have hlt : out - 1 < (before.take out ++ tail).length := by
    rw [length_append]
    omega
  rw [storeByte_inside b hlt, List.set_eq_take_append_cons_drop, if_pos hlt,
    List.take_append_of_le_length (by omega), List.take_take, Nat.min_eq_left (Nat.sub_le _ _),
    show out - 1 + 1 = out by omega, List.drop_append_of_le_length (by omega),
    List.drop_eq_nil_of_le (by omega), List.nil_append]

/-- A byte of what is unpacked. -/
theorem byteAt_tail {out i : Nat} (hout : out + tail.length = before.length)
    (hi : i < tail.length) :
    byteAt (before.take out ++ tail) (out + i) = .ok (tail.getD i 0) := by
  have hlen : (before.take out).length = out := by
    rw [List.length_take]
    omega
  rw [byteAt, List.getElem?_append_right (by omega), hlen, Nat.add_sub_cancel_left,
    List.getElem?_eq_getElem hi, List.getD_eq_getElem?_getD, List.getElem?_eq_getElem hi]
  rfl

/-- The loop over a segment copies back. -/
theorem lzssSegment_copyBack {distance : Nat} (hpos : 0 < distance) (n : Nat) :
    ∀ {out : Nat} {tail : List Byte}, out + tail.length = before.length → n ≤ out →
      distance ≤ tail.length →
      lzssSegment (distance - 1) n out (before.take out ++ tail) =
        .ok (true, out - n, before.take (out - n) ++ copyBack distance n tail) := by
  induction n with
  | zero => exact fun _ _ _ => rfl
  | succ n ih =>
    intro out tail hout hn hdistance
    have hlen : (before.take out ++ tail).length = before.length := by
      rw [length_append, List.length_take]
      omega
    rw [lzssSegment, hlen, if_neg (by omega), byteAt_tail hout (by omega)]
    simp only [bind, Except.bind]
    rw [storeByte_front (by omega) hout]
    simp only
    rw [ih (by rw [length_cons]; omega) (by omega) (by rw [length_cons]; omega),
      copyBack, show out - 1 - n = out - (n + 1) by omega]

end Reading

/-! ## Groups -/

section Groups

variable {compressed initial before : List Byte}

/-- The word of a reference has its length and its distance. -/
theorem reference_word {length distance : Nat}
    (h : (reference length distance).Fits distance) :
    ((length - 3) * 2 ^ 12 + (distance - 3)) % 2 ^ 8 +
        ((length - 3) * 2 ^ 12 + (distance - 3)) / 2 ^ 8 % 2 ^ 8 * 2 ^ 8 =
      (length - 3) * 2 ^ 12 + (distance - 3) := by
  obtain ⟨h₁, h₂, h₃, h₄, -⟩ := h
  omega

/-- The flags of a group unpack its tokens, and stop behind them. -/
theorem lzssFlags_tokens (tokens : List LzssToken) :
    ∀ {n : Nat} {control : Byte} {s : LzssState} {left tail : List Byte},
      FlagsOf control tokens → tokens.length ≤ n → (tokens.length = n ∨ left = []) →
      TokensFit tokens tail →
      Reading compressed initial before (tokensBytes tokens ++ left) tail s →
      initial.length + (expandTokens tokens tail).length ≤ before.length →
      ∃ s', lzssFlags compressed initial.length n control s = .ok (true, s') ∧
        Reading compressed initial before left (expandTokens tokens tail) s' := by
  induction tokens with
  | nil =>
    intro n control s left tail _ _ hend _ h _
    refine ⟨s, ?_, h⟩
    cases n with
    | zero => rfl
    | succ n =>
      have hleft : left = [] := hend.resolve_left (Nat.succ_ne_zero n).symm
      rw [lzssFlags, if_pos]
      rw [h.index, hleft]
      exact Nat.le_refl _
  | cons t tokens ih =>
    intro n control s left tail hflags hn hend hfit h hroom
    obtain ⟨hflag, hflags⟩ := hflags
    obtain ⟨htoken, hfit⟩ := hfit
    obtain ⟨n, rfl⟩ := Nat.exists_eq_succ_of_ne_zero
      (show n ≠ 0 by rintro rfl; exact Nat.not_succ_le_zero _ hn)
    have hout := h.out
    have hle : (t.expand tail).length ≤ (expandTokens (t :: tokens) tail).length :=
      length_le_expandTokens tokens
    have hbytes : tokensBytes (t :: tokens) ++ left = t.bytes ++ (tokensBytes tokens ++ left) := by
      rw [tokensBytes, List.flatMap_cons, append_assoc]
      rfl
    rw [hbytes] at h
    have hindex := h.index
    have hn' : tokens.length ≤ n := Nat.le_of_succ_le_succ hn
    have hend' : tokens.length = n ∨ left = [] := hend.imp_left Nat.succ.inj
    cases t with
    | literal value =>
      have hcontrol : ¬control &&& 0x80 ≠ 0 := fun hne => Bool.false_ne_true (hflag.mp hne)
      rw [length_append] at hindex
      have hone : (literal value).bytes.length = 1 := rfl
      have hexpand : ((literal value).expand tail).length = tail.length + 1 := rfl
      have hread : byteAt compressed (s.index - 1) = .ok value := Reading.read h
      have hstore : storeByte s.decompressed (s.out - 1) value =
          .ok (before.take (s.out - 1) ++ value :: tail) := by
        rw [h.decompressed]
        exact storeByte_front (by omega) hout
      rw [lzssFlags, if_neg (by omega), if_neg (by omega), if_neg (by omega), if_neg hcontrol,
        if_neg (by omega), hread]
      simp only [bind, Except.bind]
      rw [hstore]
      have hnext : Reading compressed initial before (tokensBytes tokens ++ left) (value :: tail)
          ⟨s.index - 1, s.out - 1, before.take (s.out - 1) ++ value :: tail⟩ := by
        obtain ⟨hstream, hindex', -, -⟩ := Reading.next h
        exact ⟨hstream, hindex', by simp only [length_cons]; omega, rfl⟩
      exact ih hflags hn' hend' hfit hnext hroom
    | reference length distance =>
      have hcontrol : control &&& 0x80 ≠ 0 := hflag.mpr rfl
      obtain ⟨h₁, h₂, h₃, h₄, h₅⟩ := id htoken
      have hword := @reference_word length distance ⟨h₁, h₂, h₃, h₄, Nat.le_refl _⟩
      rw [length_append] at hindex
      have htwo : (reference length distance).bytes.length = 2 := rfl
      have hexpand : ((reference length distance).expand tail).length =
          tail.length + length := length_copyBack _ _
      have hhigh : byteAt compressed (s.index - 1) =
          .ok (.ofNat 8 (((length - 3) * 2 ^ 12 + (distance - 3)) / 2 ^ 8)) := Reading.read h
      have hlow : byteAt compressed (s.index - 2) =
          .ok (.ofNat 8 ((length - 3) * 2 ^ 12 + (distance - 3))) := Reading.read (Reading.next h)
      have hoffset : ((length - 3) * 2 ^ 12 + (distance - 3)) % 2 ^ 12 + 2 = distance - 1 := by
        omega
      have hsize : ((length - 3) * 2 ^ 12 + (distance - 3)) / 2 ^ 12 % 16 + 3 = length := by
        omega
      have hsegment : lzssSegment (distance - 1) length s.out s.decompressed =
          .ok (true, s.out - length,
            before.take (s.out - length) ++ copyBack distance length tail) := by
        rw [h.decompressed]
        exact lzssSegment_copyBack (by omega) length hout (by omega) h₅
      rw [lzssFlags, if_neg (by omega), if_neg (by omega), if_neg (by omega), if_pos hcontrol,
        if_neg (by omega)]
      dsimp only
      rw [hlow, show s.index - 2 + 1 = s.index - 1 by omega, hhigh]
      simp only [bind, Except.bind, BitVec.toNat_ofNat]
      rw [hword, hoffset, hsize, if_neg (by omega), hsegment]
      have hnext : Reading compressed initial before (tokensBytes tokens ++ left)
          (copyBack distance length tail)
          ⟨s.index - 2, s.out - length,
            before.take (s.out - length) ++ copyBack distance length tail⟩ := by
        obtain ⟨hstream, hindex', -, -⟩ := Reading.next (Reading.next h)
        refine ⟨hstream, hindex', ?_, rfl⟩
        rw [length_copyBack]
        simp only
        omega
      exact ih hflags hn' hend' hfit hnext hroom

/-- The groups that are left unpack their tokens, and stop behind them. -/
theorem lzssGroups_groups (groups : List LzssGroup) :
    ∀ {fuel : Nat} {s : LzssState} {tail : List Byte}, GroupsFull groups → groups.length < fuel →
      TokensFit (groupsTokens groups) tail →
      Reading compressed initial before (groupsBytes groups) tail s →
      initial.length + (expandTokens (groupsTokens groups) tail).length ≤ before.length →
      ∃ s', lzssGroups compressed initial.length fuel s = .ok (true, s'.decompressed) ∧
        Reading compressed initial before [] (expandTokens (groupsTokens groups) tail) s' := by
  induction groups with
  | nil =>
    intro fuel s tail _ hfuel _ h _
    obtain ⟨fuel, rfl⟩ := Nat.exists_eq_succ_of_ne_zero (Nat.ne_of_gt hfuel)
    refine ⟨s, ?_, h⟩
    rw [lzssGroups, if_pos]
    rw [h.index]
    exact Nat.le_refl _
  | cons g groups ih =>
    intro fuel s tail hfull hfuel hfit h hroom
    obtain ⟨fuel, rfl⟩ := Nat.exists_eq_succ_of_ne_zero (Nat.ne_of_gt (Nat.zero_lt_of_lt hfuel))
    have hflags : FlagsOf g.control g.tokens ∧ g.tokens.length ≤ 8 ∧
        (g.tokens.length = 8 ∨ groupsBytes groups = []) ∧ GroupsFull groups := by
      cases groups with
      | nil => exact ⟨hfull.1, hfull.2, .inr rfl, trivial⟩
      | cons g' groups => exact ⟨hfull.1, hfull.2.1.le, .inl hfull.2.1, hfull.2.2⟩
    obtain ⟨hflags, hle, hend, hfull⟩ := hflags
    have htokens : groupsTokens (g :: groups) = g.tokens ++ groupsTokens groups := by
      rw [groupsTokens, List.flatMap_cons]
      rfl
    have hbytes : groupsBytes (g :: groups) =
        g.control :: (tokensBytes g.tokens ++ groupsBytes groups) := by
      rw [groupsBytes, List.flatMap_cons]
      rfl
    have hexpand : expandTokens (g.tokens ++ groupsTokens groups) tail =
        expandTokens (groupsTokens groups) (expandTokens g.tokens tail) := List.foldl_append
    rw [htokens, hexpand] at hroom
    rw [htokens, tokensFit_append] at hfit
    rw [hbytes] at h
    rw [htokens, hexpand]
    have hindex := h.index
    rw [length_cons] at hindex
    have hgrow := @length_le_expandTokens (groupsTokens groups) (expandTokens g.tokens tail)
    obtain ⟨s', hrun, hnext⟩ :=
      lzssFlags_tokens g.tokens hflags hle hend hfit.1 (Reading.next h) (by omega)
    obtain ⟨s'', hrest, hdone⟩ := ih hfull (Nat.lt_of_succ_lt_succ hfuel) hfit.2 hnext hroom
    refine ⟨s'', ?_, hdone⟩
    rw [lzssGroups, if_neg (by omega), Reading.read h]
    simp only [bind, Except.bind]
    rw [hrun]
    exact hrest

end Groups

/-! ## Whole streams -/

theorem littleEndian_littleEndian32 {value : Nat} (h : value < 2 ^ 32) :
    littleEndian (littleEndian32 value) = value := by
  show littleEndian [BitVec.ofNat 8 value, BitVec.ofNat 8 (value / 2 ^ 8),
    BitVec.ofNat 8 (value / 2 ^ 16), BitVec.ofNat 8 (value / 2 ^ 24)] = value
  simp only [littleEndian, BitVec.toNat_ofNat]
  omega

/-- Each group has its byte of flags. -/
theorem length_le_groupsBytes (groups : List LzssGroup) :
    groups.length ≤ (groupsBytes groups).length := by
  induction groups with
  | nil => exact Nat.le_refl _
  | cons g groups ih =>
    have hcons : groupsBytes (g :: groups) =
        g.control :: (tokensBytes g.tokens ++ groupsBytes groups) := by
      rw [groupsBytes, List.flatMap_cons]
      rfl
    rw [hcons, length_cons, length_cons, length_append]
    omega

namespace LzssStream

variable {st : LzssStream}

theorem length_bytes (st : LzssStream) : st.bytes.length = st.initial.length + st.bottom := by
  rw [bytes, bottom, top]
  simp only [length_append, List.length_reverse, littleEndian32, length_cons,
    List.length_nil]

theorem topAndBottom_bytes (h : st.Consistent) :
    topAndBottom st.bytes = st.top * 2 ^ 24 + st.bottom := by
  have hlen := st.length_bytes
  have hbottom : st.bottom = (groupsBytes st.groups).length + (st.padding.length + 8) := rfl
  have hsplit : st.bytes = (st.initial ++ (groupsBytes st.groups).reverse ++ st.padding) ++
      (littleEndian32 (st.top * 2 ^ 24 + st.bottom) ++ littleEndian32 st.offsetSize) := by
    simp only [bytes, append_assoc]
  have hbytes : bytesAt st.bytes (st.bytes.length - 8) 4 =
      littleEndian32 (st.top * 2 ^ 24 + st.bottom) := by
    rw [hlen]
    conv_lhs => rw [hsplit]
    refine bytesAt_prefix ?_ rfl
    simp only [length_append, List.length_reverse]
    omega
  have htop := h.top_lt
  have hlt := h.bottom_lt
  rw [topAndBottom, hbytes, littleEndian_littleEndian32 (by omega)]

/-- A stream with a consistent footer is unpacked. -/
theorem decompress (h : st.Consistent) (hsize : st.bytes.length < 2 ^ 63) {buffer : List Byte}
    (hbuffer : buffer.length = st.output.length) :
    lzssDecompress st.bytes buffer = .ok (true, st.output) := by
  have hlen := st.length_bytes
  have hbottom : st.bottom = (groupsBytes st.groups).length + st.top := rfl
  have htop : st.top = st.padding.length + 8 := rfl
  have htopLt := h.top_lt
  have hbottomLt := h.bottom_lt
  have houtput : st.output.length =
      st.initial.length + (expandTokens (groupsTokens st.groups) []).length := length_append
  have hbufferTop : bufferTop (topAndBottom st.bytes) = st.top := by
    rw [topAndBottom_bytes h, bufferTop]
    omega
  have hbufferBottom : bufferBottom (topAndBottom st.bytes) = st.bottom := by
    rw [topAndBottom_bytes h, bufferBottom]
    omega
  have hle : st.bytes.length ≤ buffer.length := by
    have := h.size
    omega
  have hindex : sub64 st.bytes.length st.top =
      st.initial.length + (groupsBytes st.groups).length := by
    rw [sub64_of_le (by omega) (by omega)]
    omega
  have hstop : sub64 st.bytes.length st.bottom = st.initial.length := by
    rw [sub64_of_le (by omega) (by omega)]
    omega
  rw [lzssDecompress_eq (by omega) hsize hle, hbufferTop, hbufferBottom, hindex, hstop]
  obtain ⟨before, hbefore⟩ :
      ∃ before, before = splice (List.replicate buffer.length (0 : Byte)) 0 st.bytes := ⟨_, rfl⟩
  have hbeforeLen : before.length = buffer.length := by
    rw [hbefore, length_splice (by rw [List.length_replicate]; omega), List.length_replicate]
  -- the output begins with the compressed bytes, of which the first are not compressed
  have hinitial : before.take st.initial.length = st.initial := by
    rw [hbefore, splice, List.take_zero, List.nil_append, bytes, append_assoc, List.take_left]
  have hreading : Reading st.bytes st.initial before (groupsBytes st.groups) []
      ⟨st.initial.length + (groupsBytes st.groups).length, buffer.length, before⟩ := by
    refine ⟨⟨_, rfl⟩, rfl, hbeforeLen.symm, ?_⟩
    rw [List.append_nil, List.take_of_length_le (Nat.le_of_eq hbeforeLen)]
  have hgroups := length_le_groupsBytes st.groups
  rw [← hbefore]
  obtain ⟨s, hrun, hdone⟩ := lzssGroups_groups st.groups h.full
    (show st.groups.length < st.bytes.length + 1 by omega) h.fit hreading (by omega)
  have hout : s.out = st.initial.length := by
    have := hdone.out
    omega
  rw [hrun, hdone.decompressed, hout, hinitial]
  rfl

/-- The footer of a consistent stream is inside. -/
theorem footerInside (h : st.Consistent) : FooterInside st.bytes := by
  have hlen := st.length_bytes
  have hbottom : st.bottom = (groupsBytes st.groups).length + st.top := rfl
  have hlt := h.bottom_lt
  refine .inl ?_
  rw [topAndBottom_bytes h, bufferTop]
  omega

/-- The output of a stream has the size that is computed for it. -/
theorem getDecompressedSize (h : st.Consistent) (hsize : st.bytes.length < 2 ^ 63) :
    lzssGetDecompressedSize st.bytes = .ok st.output.length := by
  have hlen := st.length_bytes
  have hbottom : st.bottom = (groupsBytes st.groups).length + (st.padding.length + 8) := rfl
  have hsplit : st.bytes = (st.initial ++ (groupsBytes st.groups).reverse ++ st.padding ++
      littleEndian32 (st.top * 2 ^ 24 + st.bottom)) ++ (littleEndian32 st.offsetSize ++ []) := by
    simp only [bytes, append_assoc, List.append_nil]
  have hbytes : bytesAt st.bytes (st.bytes.length - 4) 4 = littleEndian32 st.offsetSize := by
    rw [hlen]
    conv_lhs => rw [hsplit]
    refine bytesAt_prefix ?_ rfl
    simp only [length_append, List.length_reverse, littleEndian32, length_cons,
      List.length_nil]
    omega
  rw [lzssGetDecompressedSize, sub64_of_le (by omega) (by omega), readAt_inside (by omega), hbytes]
  simp only [bind, Except.bind]
  rw [littleEndian_littleEndian32 h.offsetSize_lt, h.size]

end LzssStream

/-- All accesses are inside both buffers, the loop ends, and streams with a consistent footer are
unpacked, if and only if the footer is inside. A vector has less than `2 ^ 63` bytes. -/
theorem lzssDecompress_iff {compressed decompressed : List Byte} (hfooter : 8 ≤ compressed.length)
    (hsize : compressed.length < 2 ^ 63)
    (hdecompressed : lzssGetDecompressedSize compressed = .ok decompressed.length) :
    (Safe (lzssDecompress compressed decompressed) ∧
        lzssDecompress compressed decompressed ≠ .error .unreachable ∧
        ∀ st : LzssStream, st.Consistent → compressed = st.bytes →
          lzssDecompress compressed decompressed = .ok (true, st.output)) ↔
      FooterInside compressed := by
  have hle : compressed.length ≤ decompressed.length := by
    rw [lzssGetDecompressedSize, sub64_of_le (by omega) (by omega),
      readAt_inside (by omega)] at hdecompressed
    rw [← Except.ok.inj hdecompressed]
    exact Nat.le_add_left _ _
  obtain ⟨hsafe, hreached⟩ := lzssDecompress_safe hfooter hsize hle
  refine ⟨fun h => hsafe.mp h.1, fun h => ⟨hsafe.mpr h, hreached, ?_⟩⟩
  rintro st hconsistent rfl
  rw [LzssStream.getDecompressedSize hconsistent hsize] at hdecompressed
  exact LzssStream.decompress hconsistent hsize (Except.ok.inj hdecompressed).symm

/-- One byte that is not compressed, three literals, and their eighteen bytes once more. -/
def letters : LzssStream where
  initial := [1]
  groups := [⟨0x10, [.literal 2, .literal 3, .literal 4, .reference 18 3]⟩]
  padding := []
  offsetSize := 7

theorem letters_consistent : letters.Consistent where
  full := ⟨by decide, by decide⟩
  fit := by decide
  top_lt := by decide
  bottom_lt := by decide
  offsetSize_lt := by decide
  size := by decide

theorem letters_unpacked :
    lzssDecompress letters.bytes (List.replicate 22 0) = .ok (true, letters.output) :=
  ((lzssDecompress_iff (by decide) (by decide) (by decide +kernel)).mpr
    (letters.footerInside letters_consistent)).2.2 letters letters_consistent rfl

/-- A footer that is larger than the buffer: the first byte of flags is read far behind its end. -/
theorem lzssDecompress_outside :
    lzssGetDecompressedSize [0, 0, 0, 255, 0, 0, 0, 0] = .ok 8 ∧
      lzssDecompress [0, 0, 0, 255, 0, 0, 0, 0] (List.replicate 8 0) = .error .read := by
  decide +kernel

end GbaStation.FileSys
