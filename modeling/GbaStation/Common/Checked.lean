import GbaStation.Common.ByteMemory

/-!
# Checked memory accesses

A computation that reads and writes memory without looking at sizes, with every access checked: it
stops at the first one that is outside, at an assertion that fails, or at a place that is not to be
reached.
-/

namespace GbaStation

/-- Why a computation stops. -/
inductive Fault where
  /-- A read outside a buffer. -/
  | read
  /-- A write outside a buffer. -/
  | write
  | assertion
  | unreachable
  deriving DecidableEq, Repr

variable {α β : Type}

/-- The computation does not stop. -/
def Safe (x : Except Fault α) : Prop := ∃ a, x = .ok a

@[simp] theorem safe_ok (a : α) : Safe (.ok a) ↔ True := iff_of_true ⟨a, rfl⟩ trivial

@[simp] theorem safe_pure (a : α) : Safe (pure a) ↔ True := iff_of_true ⟨a, rfl⟩ trivial

@[simp] theorem safe_error (e : Fault) : Safe (α := α) (.error e) ↔ False :=
  iff_of_false (by rintro ⟨a, ha⟩; cases ha) id

theorem safe_bind {x : Except Fault α} {f : α → Except Fault β} :
    Safe (x >>= f) ↔ ∃ a, x = .ok a ∧ Safe (f a) := by
  cases x with
  | ok a =>
    refine ⟨fun h => ⟨a, rfl, h⟩, ?_⟩
    rintro ⟨_, ha, h⟩
    cases ha
    exact h
  | error e =>
    refine ⟨fun h => ((safe_error e).mp h).elim, ?_⟩
    rintro ⟨_, h, _⟩
    cases h

/-- A loop, where a turn is safe whatever the turns before it have left. -/
theorem safe_foldlM {f : β → α → Except Fault β} {p : α → Prop} (h : ∀ b a, Safe (f b a) ↔ p a)
    (l : List α) (b : β) : Safe (l.foldlM f b) ↔ ∀ a ∈ l, p a := by
  induction l generalizing b with
  | nil => simp
  | cons a l ih =>
    rw [List.foldlM_cons, safe_bind, List.forall_mem_cons, ← h b a]
    constructor
    · rintro ⟨b', hb', hl⟩
      exact ⟨⟨b', hb'⟩, (ih b').mp hl⟩
    · rintro ⟨⟨b', hb'⟩, hl⟩
      exact ⟨b', hb', (ih b').mpr hl⟩

/-- Stop unless a condition holds. -/
def ensure (p : Prop) [Decidable p] (e : Fault) : Except Fault Unit :=
  if p then .ok () else .error e

/-! ## Reading -/

/-- The bytes of a buffer from an offset on. -/
def bytesAt (data : List Byte) (offset size : Nat) : List Byte := (data.drop offset).take size

/-- `memcpy` from a buffer. -/
def readAt (data : List Byte) (offset size : Nat) : Except Fault (List Byte) :=
  if offset + size ≤ data.length then .ok (bytesAt data offset size) else .error .read

variable {bytes data : List Byte} {i offset size : Nat}

theorem readAt_bind {f : List Byte → Except Fault β} :
    Safe (readAt data offset size >>= f) ↔
      offset + size ≤ data.length ∧ Safe (f (bytesAt data offset size)) := by
  unfold readAt
  split_ifs with h
  · exact ⟨fun hf => ⟨h, hf⟩, And.right⟩
  · exact iff_of_false (safe_error .read).mp fun hf => h hf.1

theorem bytesAt_append {xs ys : List Byte} (h : xs.length = offset) :
    bytesAt (xs ++ ys) offset size = ys.take size := by
  subst h
  unfold bytesAt
  rw [List.drop_left]

theorem bytesAt_prefix {pre xs post : List Byte} (hpre : pre.length = offset)
    (hxs : xs.length = size) : bytesAt (pre ++ (xs ++ post)) offset size = xs := by
  rw [bytesAt_append hpre, ← hxs, List.take_left]

theorem readAt_inside (h : offset + size ≤ data.length) :
    readAt data offset size = .ok (bytesAt data offset size) := if_pos h

theorem readAt_outside (h : data.length < offset + size) :
    readAt data offset size = .error .read := if_neg (Nat.not_le.mpr h)

theorem length_bytesAt (h : offset + size ≤ data.length) :
    (bytesAt data offset size).length = size := by
  rw [bytesAt, List.length_take, List.length_drop]
  omega

theorem bytesAt_drop (data : List Byte) (offset k size : Nat) :
    bytesAt data (offset + k) size = bytesAt (data.drop offset) k size := by
  rw [bytesAt, bytesAt, List.drop_drop]

/-- What is read of the first bytes. -/
theorem bytesAt_take {n : Nat} (h : offset + size ≤ n) :
    bytesAt (data.take n) offset size = bytesAt data offset size := by
  rw [bytesAt, bytesAt, List.drop_take, List.take_take, Nat.min_eq_left (by omega)]

/-- `data[i]` as a value. -/
def byteAt (data : List Byte) (i : Nat) : Except Fault Byte :=
  match data[i]? with
  | some b => .ok b
  | none => .error .read

theorem byteAt_inside (h : i < data.length) : byteAt data i = .ok data[i] := by
  rw [byteAt, List.getElem?_eq_getElem h]

theorem byteAt_outside (h : data.length ≤ i) : byteAt data i = .error .read := by
  rw [byteAt, List.getElem?_eq_none h]

/-! ## Writing -/

/-- The bytes in place of those from an offset on. -/
def splice (data : List Byte) (offset : Nat) (bytes : List Byte) : List Byte :=
  data.take offset ++ bytes ++ data.drop (offset + bytes.length)

@[simp] theorem splice_nil (data : List Byte) (offset : Nat) : splice data offset [] = data := by
  simp [splice]

theorem length_splice (h : offset + bytes.length ≤ data.length) :
    (splice data offset bytes).length = data.length := by
  simp only [splice, List.length_append, List.length_take, List.length_drop]
  omega

/-- One byte behind those that were written. -/
theorem splice_snoc {b : Byte} (h : offset + bytes.length < data.length) :
    (splice data offset bytes).set (offset + bytes.length) b =
      splice data offset (bytes ++ [b]) := by
  have hlen : (data.take offset ++ bytes).length = offset + bytes.length := by
    rw [List.length_append, List.length_take]
    omega
  rw [splice, List.set_append_right _ _ (by omega), hlen, Nat.sub_self,
    List.drop_eq_getElem_cons h, List.set_cons_zero]
  simp [splice, Nat.add_assoc]

/-- `data[i] = b`. -/
def storeByte (data : List Byte) (i : Nat) (b : Byte) : Except Fault (List Byte) :=
  if i < data.length then .ok (data.set i b) else .error .write

theorem storeByte_inside (b : Byte) (h : i < data.length) :
    storeByte data i b = .ok (data.set i b) := if_pos h

/-- `memcpy` to a buffer. -/
def storeAt (data : List Byte) (offset : Nat) (bytes : List Byte) : Except Fault (List Byte) :=
  if offset + bytes.length ≤ data.length then .ok (splice data offset bytes) else .error .write

theorem storeAt_inside (h : offset + bytes.length ≤ data.length) :
    storeAt data offset bytes = .ok (splice data offset bytes) := if_pos h

/-! ## Words in network order -/

/-- The value of bytes, the highest first. -/
def bigEndian (bytes : List Byte) : Nat := littleEndian bytes.reverse

/-- The two bytes of a `u16_be`. -/
def bigEndianBytes (value : Nat) : List Byte := [.ofNat 8 (value / 0x100), .ofNat 8 value]

theorem bigEndian_bytes (value : Nat) : bigEndian (bigEndianBytes value) = value % 2 ^ 16 := by
  show littleEndian [BitVec.ofNat 8 value, BitVec.ofNat 8 (value / 0x100)] = _
  simp only [littleEndian, BitVec.toNat_ofNat]
  omega

end GbaStation
