import GbaStation.Common.PagedMemory

/-!
# Byte memories

A memory of bytes by address, as host code sees it.
-/

namespace GbaStation

/-- The value of bytes, the lowest first. -/
def littleEndian : List Byte → Nat
  | [] => 0
  | b :: bs => b.toNat + 0x100 * littleEndian bs

/-- Byte `j` of a value. -/
def bytesOf (value j : Nat) : Byte := .ofNat 8 (value / 0x100 ^ j)

theorem littleEndian_inj : ∀ {bs cs : List Byte}, bs.length = cs.length →
    littleEndian bs = littleEndian cs → bs = cs
  | [], [], _, _ => rfl
  | b :: bs, c :: cs, hlen, h => by
    simp only [littleEndian] at h
    have heq : b.toNat = c.toNat := by omega
    have htail : bs = cs := littleEndian_inj (by simpa using hlen) (by omega)
    rw [BitVec.eq_of_toNat_eq heq, htail]

/-- The lowest `n` bytes of a value. -/
theorem littleEndian_map_bytesOf (n v : Nat) :
    littleEndian ((List.range n).map (bytesOf v)) = v % 0x100 ^ n := by
  induction n generalizing v with
  | zero => exact (Nat.mod_one v).symm
  | succ n ih =>
    have htail : bytesOf v ∘ Nat.succ = bytesOf (v / 0x100) := by
      funext j
      rw [Function.comp, bytesOf, bytesOf, Nat.pow_succ', Nat.div_div_eq_div_mul]
    rw [List.range_succ_eq_map, List.map_cons, List.map_map, htail, littleEndian, ih, Nat.pow_succ',
      Nat.mod_mul]
    simp [bytesOf]

/-- The `n` bytes from `ptr` are those of `f`. -/
def copyIn (host : Nat → Byte) (ptr n : Nat) (f : Nat → Byte) (a : Nat) : Byte :=
  if ptr ≤ a ∧ a < ptr + n then f (a - ptr) else host a

/-- The `n` bytes from `ptr`. -/
def copyOut (host : Nat → Byte) (ptr n : Nat) : List Byte :=
  (List.range n).map fun j => host (ptr + j)

/-- The first `n` bytes of `f` are written to their addresses, one after the other. -/
def overlay (addr : Nat → Option Nat) (f : Nat → Byte) : Nat → (Nat → Byte) → Nat → Byte
  | 0, g => g
  | n + 1, g =>
    match addr n with
    | some a => Function.update (overlay addr f n g) a (f n)
    | none => overlay addr f n g

variable {addr addr' : Nat → Option Nat} {f f' g : Nat → Byte} {n k a p : Nat}

theorem overlay_congr : ∀ {n : Nat}, (∀ j, j < n → addr j = addr' j) → (∀ j, j < n → f j = f' j) →
    overlay addr f n g = overlay addr' f' n g
  | 0, _, _ => rfl
  | n + 1, haddr, hf => by
    have ih : overlay addr f n g = overlay addr' f' n g :=
      overlay_congr (fun j hj => haddr j (by omega)) fun j hj => hf j (by omega)
    rw [overlay, overlay, haddr n (by omega), hf n (by omega), ih]

theorem overlay_none : ∀ {n : Nat}, (∀ j, j < n → addr j = none) → overlay addr f n g = g
  | 0, _ => rfl
  | n + 1, h => by
    rw [overlay, h n (by omega)]
    exact overlay_none fun j hj => h j (by omega)

/-- Writing `n` bytes, and then `k` more. -/
theorem overlay_add : ∀ (k : Nat), overlay addr f (n + k) g =
    overlay (fun j => addr (n + j)) (fun j => f (n + j)) k (overlay addr f n g)
  | 0 => rfl
  | k + 1 => by
    rw [← Nat.add_assoc, overlay, overlay, overlay_add k]

/-- An address that no byte goes to. -/
theorem overlay_off : ∀ {n : Nat}, (∀ j, j < n → addr j ≠ some a) → overlay addr f n g a = g a
  | 0, _ => rfl
  | n + 1, h => by
    have ih : overlay addr f n g a = g a := overlay_off fun j hj => h j (by omega)
    rw [overlay]
    cases hn : addr n with
    | none => exact ih
    | some b =>
      have hne : a ≠ b := fun heq => h n (by omega) (hn.trans (congrArg some heq.symm))
      exact (Function.update_of_ne hne _ _).trans ih

/-- The address of a byte no other byte goes to. -/
theorem overlay_at (hk : k < n) (ha : addr k = some a)
    (hinj : ∀ j, j < n → addr j = some a → j = k) : overlay addr f n g a = f k := by
  obtain ⟨r, rfl⟩ : ∃ r, n = k + 1 + r := ⟨n - (k + 1), by omega⟩
  rw [overlay_add, overlay_off, overlay, ha]
  · exact Function.update_self ..
  · intro j hj heq
    have := hinj (k + 1 + j) (by omega) heq
    omega

/-- Bytes that go to consecutive addresses are a block. -/
theorem overlay_block : ∀ {n : Nat}, (∀ j, j < n → addr j = some (p + j)) →
    overlay addr f n g = copyIn g p n f
  | 0, _ => by
    funext a
    rw [copyIn, if_neg (by omega)]
    rfl
  | n + 1, h => by
    have ih : overlay addr f n g = copyIn g p n f := overlay_block fun j hj => h j (by omega)
    rw [overlay, h n (by omega)]
    simp only
    rw [ih]
    funext a
    by_cases ha : a = p + n
    · subst ha
      rw [Function.update_self, copyIn, if_pos (by omega), Nat.add_sub_cancel_left]
    · rw [Function.update_of_ne ha, copyIn, copyIn]
      split_ifs <;> first | rfl | omega

end GbaStation
