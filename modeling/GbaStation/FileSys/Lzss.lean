import GbaStation.Common.Checked
import GbaStation.Common.RingCells

/-!
# Backward LZSS (`core/file_sys/ncch_container.cpp`)

`LZSS_Decompress` reads a compressed ExeFS section from its end, and writes what it unpacks from the
end of the output down to a prefix that is not compressed. Where the stream begins and ends is taken
from the footer.

- `lzssDecompress_safe`: all accesses are inside, unless the footer is larger than the buffer and
  says that the stream has a byte.
-/

namespace GbaStation.FileSys

open RingCells (sub64)

/-! ## The functions -/

/-- `LZSS_GetDecompressedSize`. -/
def lzssGetDecompressedSize (buffer : List Byte) : Except Fault Nat := do
  let offsetSize := littleEndian (← readAt buffer (sub64 buffer.length 4) 4)
  .ok (offsetSize + buffer.length)

/-- The cursors of `LZSS_Decompress` and its output. -/
structure LzssState where
  index : Nat
  out : Nat
  decompressed : List Byte

/-- The loop over a segment; `false` when the function returns it. -/
def lzssSegment (segmentOffset : Nat) :
    Nat → Nat → List Byte → Except Fault (Bool × Nat × List Byte)
  | 0, out, decompressed => .ok (true, out, decompressed)
  | n + 1, out, decompressed =>
    -- check if compression is out of bounds
    if decompressed.length ≤ out + segmentOffset then .ok (false, out, decompressed)
    else do
      let data ← byteAt decompressed (out + segmentOffset)
      let out := out - 1
      let decompressed ← storeByte decompressed out data
      lzssSegment segmentOffset n out decompressed

/-- The loop over the flags of a group; `false` when the function returns it. -/
def lzssFlags (compressed : List Byte) (stopIndex : Nat) :
    Nat → Byte → LzssState → Except Fault (Bool × LzssState)
  | 0, _, s => .ok (true, s)
  | n + 1, control, s =>
    if s.index ≤ stopIndex then .ok (true, s)
    else if s.index = 0 then .ok (true, s)
    else if s.out = 0 then .ok (true, s)
    else if control &&& 0x80 ≠ 0 then
      -- check if compression is out of bounds
      if s.index < 2 then .ok (false, s)
      else do
        let index := s.index - 2
        let low ← byteAt compressed index
        let high ← byteAt compressed (index + 1)
        let segmentOffset := low.toNat + high.toNat * 2 ^ 8
        let segmentSize := segmentOffset / 2 ^ 12 % 16 + 3
        let segmentOffset := segmentOffset % 2 ^ 12 + 2
        if s.out < segmentSize then .ok (false, { s with index := index })
        else do
          match ← lzssSegment segmentOffset segmentSize s.out s.decompressed with
          | (false, out, decompressed) => .ok (false, ⟨index, out, decompressed⟩)
          | (true, out, decompressed) =>
            lzssFlags compressed stopIndex n (control <<< 1) ⟨index, out, decompressed⟩
    else if s.out < 1 then .ok (false, s)
    else do
      let data ← byteAt compressed (s.index - 1)
      let decompressed ← storeByte s.decompressed (s.out - 1) data
      lzssFlags compressed stopIndex n (control <<< 1) ⟨s.index - 1, s.out - 1, decompressed⟩

/-- The loop over the groups. -/
def lzssGroups (compressed : List Byte) (stopIndex : Nat) :
    Nat → LzssState → Except Fault (Bool × List Byte)
  | 0, _ => .error .unreachable
  | fuel + 1, s =>
    if s.index ≤ stopIndex then .ok (true, s.decompressed)
    else do
      let control ← byteAt compressed (s.index - 1)
      match ← lzssFlags compressed stopIndex 8 control { s with index := s.index - 1 } with
      | (false, s) => .ok (false, s.decompressed)
      | (true, s) => lzssGroups compressed stopIndex fuel s

/-- The two fields of the footer: the size of the footer, and where the stream begins. -/
def bufferTop (topAndBottom : Nat) : Nat := topAndBottom / 2 ^ 24 % 2 ^ 8

def bufferBottom (topAndBottom : Nat) : Nat := topAndBottom % 2 ^ 24

/-- `LZSS_Decompress`: what it returns, and the output. -/
def lzssDecompress (compressed decompressed : List Byte) : Except Fault (Bool × List Byte) := do
  let topAndBottom := littleEndian (← readAt compressed (sub64 compressed.length 8) 4)
  let out := decompressed.length
  let index := sub64 compressed.length (bufferTop topAndBottom)
  let stopIndex := sub64 compressed.length (bufferBottom topAndBottom)
  let decompressed ← storeAt (List.replicate decompressed.length 0) 0 compressed
  lzssGroups compressed stopIndex (compressed.length + 1) ⟨index, out, decompressed⟩

/-! ## Streams -/

/-- A byte, or bytes that are copied from further behind in the output. -/
inductive LzssToken
  | literal (value : Byte)
  | reference (length distance : Nat)
deriving DecidableEq, Repr

namespace LzssToken

def isReference : LzssToken → Bool
  | literal _ => false
  | reference _ _ => true

/-- The bytes of a token, in the order in which they are read. -/
def bytes : LzssToken → List Byte
  | literal value => [value]
  | reference length distance =>
    let word := (length - 3) * 2 ^ 12 + (distance - 3)
    [.ofNat 8 (word / 2 ^ 8), .ofNat 8 word]

/-- Copies of the byte at a distance, each in front of what there is. -/
def copyBack (distance : Nat) : Nat → List Byte → List Byte
  | 0, tail => tail
  | n + 1, tail => copyBack distance n (tail.getD (distance - 1) 0 :: tail)

/-- A token in front of what is unpacked. -/
def expand (tail : List Byte) : LzssToken → List Byte
  | literal value => value :: tail
  | reference length distance => copyBack distance length tail

/-- A reference has a length and a distance that the stream can encode, and does not reach behind
what is unpacked. -/
def Fits (produced : Nat) : LzssToken → Prop
  | literal _ => True
  | reference length distance =>
    3 ≤ length ∧ length ≤ 18 ∧ 3 ≤ distance ∧ distance < 2 ^ 12 + 3 ∧ distance ≤ produced

instance (produced : Nat) : (t : LzssToken) → Decidable (t.Fits produced)
  | literal _ => .isTrue trivial
  | reference length distance => inferInstanceAs (Decidable (3 ≤ length ∧ length ≤ 18 ∧
      3 ≤ distance ∧ distance < 2 ^ 12 + 3 ∧ distance ≤ produced))

end LzssToken

/-- Tokens in front of what is unpacked, the last one at the front. -/
def expandTokens (tokens : List LzssToken) (tail : List Byte) : List Byte :=
  tokens.foldl LzssToken.expand tail

/-- Each token fits what the ones before it unpack. -/
def TokensFit : List LzssToken → List Byte → Prop
  | [], _ => True
  | t :: tokens, tail => t.Fits tail.length ∧ TokensFit tokens (t.expand tail)

instance decidableTokensFit :
    (tokens : List LzssToken) → (tail : List Byte) → Decidable (TokensFit tokens tail)
  | [], _ => .isTrue trivial
  | t :: tokens, tail =>
    have := decidableTokensFit tokens (t.expand tail)
    inferInstanceAs (Decidable (t.Fits tail.length ∧ TokensFit tokens (t.expand tail)))

/-- A byte of flags and its tokens, of which there are eight, or fewer in the last group. -/
structure LzssGroup where
  control : Byte
  tokens : List LzssToken

/-- The flags of tokens are the bits of a byte from the highest on. -/
def FlagsOf : Byte → List LzssToken → Prop
  | _, [] => True
  | control, t :: tokens =>
    (control &&& 0x80 ≠ 0 ↔ t.isReference = true) ∧ FlagsOf (control <<< 1) tokens

instance decidableFlagsOf :
    (control : Byte) → (tokens : List LzssToken) → Decidable (FlagsOf control tokens)
  | _, [] => .isTrue trivial
  | control, t :: tokens =>
    have := decidableFlagsOf (control <<< 1) tokens
    inferInstanceAs (Decidable
      ((control &&& 0x80 ≠ 0 ↔ t.isReference = true) ∧ FlagsOf (control <<< 1) tokens))

/-- The bytes of tokens and groups, in the order in which they are read. -/
def tokensBytes (tokens : List LzssToken) : List Byte := tokens.flatMap LzssToken.bytes

def LzssGroup.bytes (g : LzssGroup) : List Byte := g.control :: tokensBytes g.tokens

def groupsBytes (groups : List LzssGroup) : List Byte := groups.flatMap LzssGroup.bytes

def groupsTokens (groups : List LzssGroup) : List LzssToken := groups.flatMap LzssGroup.tokens

def GroupsFull : List LzssGroup → Prop
  | [] => True
  | [g] => FlagsOf g.control g.tokens ∧ g.tokens.length ≤ 8
  | g :: groups => FlagsOf g.control g.tokens ∧ g.tokens.length = 8 ∧ GroupsFull groups

/-- The four bytes of a `u32`. -/
def littleEndian32 (value : Nat) : List Byte :=
  [.ofNat 8 value, .ofNat 8 (value / 2 ^ 8), .ofNat 8 (value / 2 ^ 16), .ofNat 8 (value / 2 ^ 24)]

/-- A stream: bytes that are not compressed, groups, bytes between the groups and the footer, and
how much larger the output is. -/
structure LzssStream where
  initial : List Byte
  groups : List LzssGroup
  padding : List Byte
  offsetSize : Nat

namespace LzssStream

/-- The output of a stream. -/
def output (s : LzssStream) : List Byte := s.initial ++ expandTokens (groupsTokens s.groups) []

def top (s : LzssStream) : Nat := s.padding.length + 8

def bottom (s : LzssStream) : Nat := (groupsBytes s.groups).length + s.top

/-- The bytes of a stream. -/
def bytes (s : LzssStream) : List Byte :=
  s.initial ++ ((groupsBytes s.groups).reverse ++ (s.padding ++
    (littleEndian32 (s.top * 2 ^ 24 + s.bottom) ++ littleEndian32 s.offsetSize)))

/-- The footer is consistent with what is before it. -/
structure Consistent (s : LzssStream) : Prop where
  full : GroupsFull s.groups
  fit : TokensFit (groupsTokens s.groups) []
  top_lt : s.top < 2 ^ 8
  bottom_lt : s.bottom < 2 ^ 24
  offsetSize_lt : s.offsetSize < 2 ^ 32
  size : s.output.length = s.offsetSize + s.bytes.length

end LzssStream

/-! ## Accesses -/

theorem sub64_of_le {a b : Nat} (hle : b ≤ a) (ha : a < 2 ^ 64) : sub64 a b = a - b := by
  unfold sub64
  omega

theorem sub64_of_lt {a b : Nat} (hlt : a < b) (hb : b < 2 ^ 64) :
    sub64 a b = a + (2 ^ 64 - b) := by
  unfold sub64
  omega

/-- The cursors are inside their buffers. -/
structure LzssState.Inside (compressedSize decompressedSize : Nat) (s : LzssState) : Prop where
  index_le : s.index ≤ compressedSize
  out_le : s.out ≤ decompressedSize
  length : s.decompressed.length = decompressedSize

section Inside

variable {compressed : List Byte} {decompressedSize stopIndex : Nat}

theorem lzssSegment_inside {segmentOffset : Nat} (n : Nat) :
    ∀ {out : Nat} {decompressed : List Byte}, n ≤ out → out ≤ decompressedSize →
      decompressed.length = decompressedSize →
      ∃ b out' decompressed',
        lzssSegment segmentOffset n out decompressed = .ok (b, out', decompressed') ∧
          out' ≤ decompressedSize ∧ decompressed'.length = decompressedSize := by
  induction n with
  | zero => exact fun _ hout hlen => ⟨_, _, _, rfl, hout, hlen⟩
  | succ n ih =>
    intro out decompressed hn hout hlen
    rw [lzssSegment]
    split_ifs with hbehind
    · exact ⟨_, _, _, rfl, hout, hlen⟩
    · rw [byteAt_inside (Nat.not_le.mp hbehind)]
      simp only [bind, Except.bind]
      rw [storeByte_inside _ (by omega)]
      exact ih (by omega) (by omega) (by rw [List.length_set, hlen])

/-- A group keeps the cursors inside, and does not move the index back up. -/
theorem lzssFlags_inside (n : Nat) :
    ∀ {control : Byte} {s : LzssState}, s.Inside compressed.length decompressedSize →
      ∃ b s', lzssFlags compressed stopIndex n control s = .ok (b, s') ∧
        s'.Inside compressed.length decompressedSize ∧ s'.index ≤ s.index := by
  induction n with
  | zero => exact fun h => ⟨_, _, rfl, h, Nat.le_refl _⟩
  | succ n ih =>
    intro control s h
    obtain ⟨hindex, hout, hlen⟩ := id h
    rw [lzssFlags]
    split_ifs with hstop hzero hnone hreference hshort hliteral
    · exact ⟨_, _, rfl, h, Nat.le_refl _⟩
    · exact ⟨_, _, rfl, h, Nat.le_refl _⟩
    · exact ⟨_, _, rfl, h, Nat.le_refl _⟩
    · exact ⟨_, _, rfl, h, Nat.le_refl _⟩
    · -- a reference: its two bytes are there, and the segment stays inside
      dsimp only
      rw [byteAt_inside (show s.index - 2 < compressed.length by omega),
        byteAt_inside (show s.index - 2 + 1 < compressed.length by omega)]
      simp only [bind, Except.bind]
      split_ifs with hsegment
      · exact ⟨_, _, rfl, ⟨by simp only; omega, hout, hlen⟩, Nat.sub_le _ _⟩
      · obtain ⟨b, out, decompressed, hrun, hout', hlen'⟩ :=
          lzssSegment_inside _ (Nat.not_lt.mp hsegment) hout hlen
        rw [hrun]
        cases b with
        | false => exact ⟨_, _, rfl, ⟨by simp only; omega, hout', hlen'⟩, Nat.sub_le _ _⟩
        | true =>
          obtain ⟨b, s', hrest, hinside, hle⟩ := @ih (control <<< 1)
            ⟨s.index - 2, out, decompressed⟩ ⟨by simp only; omega, hout', hlen'⟩
          exact ⟨b, s', hrest, hinside, hle.trans (Nat.sub_le _ _)⟩
    · exact ⟨_, _, rfl, h, Nat.le_refl _⟩
    · -- a literal
      have hlt : s.index - 1 < compressed.length := by omega
      rw [byteAt_inside hlt]
      simp only [bind, Except.bind]
      rw [storeByte_inside _ (by omega)]
      obtain ⟨b, s', hrest, hinside, hle⟩ := @ih (control <<< 1)
        ⟨s.index - 1, s.out - 1, s.decompressed.set (s.out - 1) compressed[s.index - 1]⟩
        ⟨by simp only; omega, by simp only; omega, by rw [List.length_set, hlen]⟩
      exact ⟨b, s', hrest, hinside, hle.trans (Nat.sub_le _ _)⟩

/-- From an index inside, the loop over the groups ends. -/
theorem lzssGroups_inside (fuel : Nat) :
    ∀ {s : LzssState}, s.Inside compressed.length decompressedSize → s.index < fuel →
      Safe (lzssGroups compressed stopIndex fuel s) := by
  induction fuel with
  | zero => exact fun _ h => absurd h (Nat.not_lt_zero _)
  | succ fuel ih =>
    intro s h hfuel
    obtain ⟨hindex, hout, hlen⟩ := id h
    rw [lzssGroups]
    split_ifs with hstop
    · exact ⟨_, rfl⟩
    · have hlt : s.index - 1 < compressed.length := by omega
      rw [byteAt_inside hlt]
      obtain ⟨b, s', hflags, hinside, hle⟩ := @lzssFlags_inside compressed decompressedSize
        stopIndex 8 compressed[s.index - 1] { s with index := s.index - 1 }
        ⟨by simp only; omega, hout, hlen⟩
      simp only [bind, Except.bind]
      rw [hflags]
      cases b with
      | false => exact ⟨_, rfl⟩
      | true => exact ih hinside (by simp only at hle; omega)

end Inside

/-- The first four bytes of the footer. -/
def topAndBottom (compressed : List Byte) : Nat :=
  littleEndian (bytesAt compressed (compressed.length - 8) 4)

/-- The footer is not larger than the buffer, or says that the stream has no byte. -/
def FooterInside (compressed : List Byte) : Prop :=
  bufferTop (topAndBottom compressed) ≤ compressed.length ∨
    (compressed.length < bufferBottom (topAndBottom compressed) ∧
      bufferBottom (topAndBottom compressed) ≤ bufferTop (topAndBottom compressed))

section Footer

variable {compressed decompressed : List Byte}

/-- The function from the first group on. -/
theorem lzssDecompress_eq (hfooter : 8 ≤ compressed.length) (hsize : compressed.length < 2 ^ 63)
    (hle : compressed.length ≤ decompressed.length) :
    lzssDecompress compressed decompressed =
      lzssGroups compressed (sub64 compressed.length (bufferBottom (topAndBottom compressed)))
        (compressed.length + 1)
        ⟨sub64 compressed.length (bufferTop (topAndBottom compressed)), decompressed.length,
          splice (List.replicate decompressed.length 0) 0 compressed⟩ := by
  have hsub : sub64 compressed.length 8 = compressed.length - 8 := sub64_of_le hfooter (by omega)
  have hstore : storeAt (List.replicate decompressed.length 0) 0 compressed =
      .ok (splice (List.replicate decompressed.length 0) 0 compressed) :=
    storeAt_inside (by rw [List.length_replicate]; omega)
  rw [lzssDecompress, hsub, readAt_inside (by omega)]
  simp only [bind, Except.bind]
  rw [hstore]
  rfl

theorem lzssDecompress_safe (hfooter : 8 ≤ compressed.length) (hsize : compressed.length < 2 ^ 63)
    (hle : compressed.length ≤ decompressed.length) :
    (Safe (lzssDecompress compressed decompressed) ↔ FooterInside compressed) ∧
      lzssDecompress compressed decompressed ≠ .error .unreachable := by
  have htop : bufferTop (topAndBottom compressed) < 2 ^ 64 := by
    rw [bufferTop]
    omega
  have hbottom : bufferBottom (topAndBottom compressed) < 2 ^ 64 := by
    rw [bufferBottom]
    omega
  have hlength : (splice (List.replicate decompressed.length 0) 0 compressed).length =
      decompressed.length := by
    rw [length_splice (by rw [List.length_replicate]; omega), List.length_replicate]
  rw [lzssDecompress_eq hfooter hsize hle, FooterInside]
  generalize bufferTop (topAndBottom compressed) = top at htop ⊢
  generalize bufferBottom (topAndBottom compressed) = bottom at hbottom ⊢
  by_cases hin : top ≤ compressed.length
  · -- the index is inside from the start
    have hindex : sub64 compressed.length top = compressed.length - top :=
      sub64_of_le hin (by omega)
    have hsafe : Safe (lzssGroups compressed (sub64 compressed.length bottom)
        (compressed.length + 1) ⟨sub64 compressed.length top, decompressed.length,
          splice (List.replicate decompressed.length 0) 0 compressed⟩) :=
      lzssGroups_inside _ ⟨by rw [hindex]; exact Nat.sub_le _ _, Nat.le_refl _, hlength⟩
        (by rw [hindex]; exact Nat.lt_succ_of_le (Nat.sub_le _ _))
    refine ⟨iff_of_true hsafe (.inl hin), fun herror => ?_⟩
    obtain ⟨r, hr⟩ := hsafe
    rw [hr] at herror
    cases herror
  · have hindex : sub64 compressed.length top = compressed.length + (2 ^ 64 - top) :=
      sub64_of_lt (Nat.not_le.mp hin) htop
    rw [lzssGroups]
    by_cases hstop : compressed.length < bottom ∧ bottom ≤ top
    · -- the stop index wraps as well, and is not before the index
      have hstopIndex : sub64 compressed.length bottom = compressed.length + (2 ^ 64 - bottom) :=
        sub64_of_lt hstop.1 hbottom
      have hle : sub64 compressed.length top ≤ sub64 compressed.length bottom := by
        rw [hindex, hstopIndex]
        omega
      rw [if_pos hle]
      exact ⟨iff_of_true ⟨_, rfl⟩ (.inr hstop), fun herror => by cases herror⟩
    · have hbefore : ¬sub64 compressed.length top ≤ sub64 compressed.length bottom := by
        by_cases hwrap : compressed.length < bottom
        · rw [hindex, sub64_of_lt hwrap hbottom]
          omega
        · rw [hindex, sub64_of_le (Nat.not_lt.mp hwrap) (by omega)]
          omega
      have hread : byteAt compressed (sub64 compressed.length top - 1) = .error .read :=
        byteAt_outside (by rw [hindex]; omega)
      rw [if_neg hbefore]
      simp only [bind, Except.bind]
      rw [hread]
      exact ⟨iff_of_false (safe_error _).mp (not_or.mpr ⟨hin, hstop⟩),
        fun herror => by cases herror⟩

end Footer

end GbaStation.FileSys
