import GbaStation.Common.PagedMemory

/-!
# 128-bit key arithmetic (`core/hw/aes/arithmetic128.cpp`)

A key is sixteen bytes, the highest first; `word` is the number they stand for.

- `Add128U64`, the overload for a `u64`, stops after eight bytes and drops the carry into the upper
  half (`lower_Add128U64`), so that it adds exactly where the lower halves do not overflow
  (`keyArithmetic_iff`).
-/

namespace GbaStation.Aes

abbrev AESKey := Fin 16 → Byte

local instance neZero : NeZero 16 := ⟨by decide⟩

/-- Byte `j` from the end. -/
def digit (a : AESKey) (j : Nat) : Byte := a (Fin.ofNat 16 (15 - j))

/-- The number in the last `n` bytes. -/
def lower (a : AESKey) : Nat → Nat
  | 0 => 0
  | n + 1 => 2 ^ (8 * n) * (digit a n).toNat + lower a n

/-- The number that the key stands for. -/
def word (a : AESKey) : BitVec 128 := .ofNat 128 (lower a 16)

/-! ## The source -/

def Lrot128 (input : AESKey) (rot : BitVec 32) : AESKey := fun i =>
  let rot := rot.toNat % 128
  let byteShift := rot / 8
  let bitShift := rot % 8
  let wrapIndexA := Fin.ofNat 16 (i + byteShift)
  let wrapIndexB := Fin.ofNat 16 (i + byteShift + 1)
  .ofNat 8 ((input wrapIndexA).toNat <<< bitShift ||| (input wrapIndexB).toNat >>> (8 - bitShift))

/-- The turns `i = 15, …, 16 - n` of the loop in both overloads: the bytes stored, and the carry. -/
def addBytes (a b out : AESKey) : Nat → AESKey × Nat
  | 0 => (out, 0)
  | n + 1 =>
    let (out, carry) := addBytes a b out n
    let i := Fin.ofNat 16 (15 - n)
    let sum := (a i).toNat + (b i).toNat + carry
    (Function.update out i (.ofNat 8 sum), sum >>> 8)

def Add128 (a b : AESKey) : AESKey := (addBytes a b (fun _ => 0) 16).1

/-- Byte `i` is what the second overload reads of its `u64`. -/
def shifted (b : BitVec 64) : AESKey := fun i => .ofNat 8 (b.toNat >>> ((15 - (i : Nat)) * 8))

def Add128U64 (a : AESKey) (b : BitVec 64) : AESKey := (addBytes a (shifted b) a 8).1

/-! ## The number in a key -/

variable (a b out : AESKey)

theorem lower_lt (n : Nat) : lower a n < 2 ^ (8 * n) := by
  induction n with
  | zero => exact Nat.one_pos
  | succ n ih =>
    have hdigit : 2 ^ (8 * n) * ((digit a n).toNat + 1) ≤ 2 ^ (8 * n) * 2 ^ 8 :=
      Nat.mul_le_mul_left _ (digit a n).isLt
    rw [← Nat.pow_add] at hdigit
    rw [lower, show 8 * (n + 1) = 8 * n + 8 from rfl]
    rw [Nat.mul_add] at hdigit
    omega

theorem toNat_word : (word a).toNat = lower a 16 :=
  Nat.mod_eq_of_lt (lower_lt a 16)

/-- The last bytes are the number modulo what they can hold. -/
theorem lower_mod {m n : Nat} (h : m ≤ n) : lower a n % 2 ^ (8 * m) = lower a m := by
  induction n, h using Nat.le_induction with
  | base => exact Nat.mod_eq_of_lt (lower_lt a m)
  | succ n hn ih =>
    obtain ⟨k, rfl⟩ := Nat.le.dest hn
    rw [lower, Nat.mul_add, Nat.pow_add, Nat.mul_assoc, Nat.mul_add_mod, ih]

theorem testBit_lower (n j : Nat) (hj : j < 8 * n) :
    (lower a n).testBit j = (digit a (j / 8)).toNat.testBit (j % 8) := by
  induction n with
  | zero => omega
  | succ n ih =>
    rw [lower, Nat.testBit_two_pow_mul_add _ (lower_lt a n)]
    by_cases hlow : j < 8 * n
    · rw [if_pos hlow, ih hlow]
    · rw [if_neg hlow, show j - 8 * n = j % 8 by omega, show j / 8 = n by omega]

theorem getLsbD_word (j : Nat) (hj : j < 128) :
    (word a).getLsbD j = (digit a (j / 8)).getLsbD (j % 8) := by
  rw [← BitVec.testBit_toNat, toNat_word, testBit_lower a 16 j hj, BitVec.testBit_toNat]

/-- Keys with the same bytes from `m` up differ by what is below. -/
theorem lower_agree {m n : Nat} (h : m ≤ n)
    (hout : ∀ j, m ≤ j → j < n → digit out j = digit a j) :
    lower out n + lower a m = lower a n + lower out m := by
  induction n, h using Nat.le_induction with
  | base => exact Nat.add_comm _ _
  | succ n hn ih =>
    have hlow := ih fun j hj hlt => hout j hj (Nat.lt_succ_of_lt hlt)
    rw [lower, lower, hout n hn n.lt_succ_self]
    omega

variable {a b} in
theorem word_inj (h : word a = word b) : a = b := by
  funext i
  apply BitVec.eq_of_getLsbD_eq
  intro j hj
  -- bit `j` of byte `i` is at this place of the number
  have hbit := congrArg (BitVec.getLsbD · (8 * (15 - i) + j)) h
  have hi : Fin.ofNat 16 (15 - (15 - (i : Nat))) = i := by
    ext
    simp only [Fin.val_ofNat]
    omega
  simp only [getLsbD_word a _ (show 8 * (15 - (i : Nat)) + j < 128 by omega),
    getLsbD_word b _ (show 8 * (15 - (i : Nat)) + j < 128 by omega), digit,
    show (8 * (15 - (i : Nat)) + j) / 8 = 15 - i by omega,
    show (8 * (15 - (i : Nat)) + j) % 8 = j by omega, hi] at hbit
  exact hbit

/-! ## Rotation -/

/-- A bit of the rotated number is the one that many places below, around the end. -/
theorem getLsbD_Lrot128 (rot : BitVec 32) (j : Nat) (hj : j < 128) :
    (word (Lrot128 a rot)).getLsbD j = (word a).getLsbD ((j + 128 - rot.toNat % 128) % 128) := by
  have hrot := Nat.mod_lt rot.toNat (show 128 > 0 by decide)
  rw [getLsbD_word _ j hj, getLsbD_word _ _ (Nat.mod_lt _ (by decide))]
  simp only [digit, Lrot128, BitVec.getLsbD_ofNat, Nat.testBit_or, Nat.testBit_shiftLeft,
    Nat.testBit_shiftRight, BitVec.testBit_toNat]
  generalize rot.toNat % 128 = r at hrot ⊢
  rw [decide_eq_true (show j % 8 < 8 by omega), Bool.true_and]
  by_cases hbit : r % 8 ≤ j % 8
  · -- the upper byte gives the bit, and what the lower one is shifted by is past its end
    rw [decide_eq_true hbit, Bool.true_and, BitVec.getLsbD_of_ge _ (8 - r % 8 + j % 8) (by omega),
      Bool.or_false, show (j + 128 - r) % 128 % 8 = j % 8 - r % 8 by omega]
    congr 2
    ext
    simp only [Fin.val_ofNat]
    omega
  · rw [decide_eq_false hbit, Bool.false_and, Bool.false_or,
      show (j + 128 - r) % 128 % 8 = 8 - r % 8 + j % 8 by omega]
    congr 2
    ext
    simp only [Fin.val_ofNat]
    omega

theorem word_Lrot128 (rot : BitVec 32) :
    word (Lrot128 a rot) = (word a).rotateLeft (rot.toNat % 128) := by
  apply BitVec.eq_of_getLsbD_eq
  intro j hj
  have hrot := Nat.mod_lt rot.toNat (show 128 > 0 by decide)
  rw [getLsbD_Lrot128 a rot j hj, BitVec.getLsbD_rotateLeft_of_le hrot]
  by_cases hlow : j < rot.toNat % 128
  · rw [decide_eq_true hlow, cond_true]
    congr 1
    omega
  · rw [decide_eq_false hlow, cond_false, decide_eq_true hj, Bool.true_and]
    congr 1
    omega

theorem Lrot128_Lrot128 (r s : BitVec 32) :
    Lrot128 (Lrot128 a r) s = Lrot128 a (.ofNat 32 (r.toNat % 128 + s.toNat % 128)) := by
  apply word_inj
  apply BitVec.eq_of_getLsbD_eq
  intro j hj
  rw [getLsbD_Lrot128 _ s j hj, getLsbD_Lrot128 _ r _ (Nat.mod_lt _ (by decide)),
    getLsbD_Lrot128 _ _ j hj, BitVec.toNat_ofNat]
  congr 1
  omega

/-! ## Addition -/

/-- One turn stores one byte. -/
theorem digit_addBytes_succ {n j : Nat} (hn : n < 16) (hj : j < 16) (hne : j ≠ n) :
    digit (addBytes a b out (n + 1)).1 j = digit (addBytes a b out n).1 j := by
  apply Function.update_of_ne
  intro heq
  have hval := congrArg Fin.val heq
  simp only [Fin.val_ofNat] at hval
  omega

/-- The bytes that are still to be stored. -/
theorem digit_addBytes (n j : Nat) (hn : n ≤ j) (hj : j < 16) :
    digit (addBytes a b out n).1 j = digit out j := by
  induction n with
  | zero => rfl
  | succ n ih =>
    rw [digit_addBytes_succ a b out (by omega) hj (by omega), ih (Nat.le_of_succ_le hn)]

/-- After `n` turns the bytes stored and the carry hold the sum of the last `n` bytes. -/
theorem lower_addBytes (n : Nat) (hn : n ≤ 16) :
    lower (addBytes a b out n).1 n + 2 ^ (8 * n) * (addBytes a b out n).2 =
      lower a n + lower b n := by
  induction n with
  | zero => rfl
  | succ n ih =>
    have hbelow := ih (Nat.le_of_succ_le hn)
    have hstored : lower (addBytes a b out (n + 1)).1 n = lower (addBytes a b out n).1 n := by
      have hkept := lower_agree (addBytes a b out n).1 (addBytes a b out (n + 1)).1 (Nat.zero_le n)
        fun j _ hj => digit_addBytes_succ a b out hn (by omega) (by omega)
      simpa only [lower, Nat.add_zero] using hkept
    rw [lower, hstored]
    simp only [addBytes, digit, Function.update_self, lower, BitVec.toNat_ofNat,
      Nat.shiftRight_eq_div_pow]
    generalize (addBytes a b out n).2 = carry at hbelow ⊢
    generalize a (Fin.ofNat 16 (15 - n)) = x
    generalize b (Fin.ofNat 16 (15 - n)) = y
    have hsum := Nat.mod_add_div (x.toNat + y.toNat + carry) (2 ^ 8)
    calc _ = 2 ^ (8 * n) * ((x.toNat + y.toNat + carry) % 2 ^ 8 +
            2 ^ 8 * ((x.toNat + y.toNat + carry) / 2 ^ 8)) + lower (addBytes a b out n).1 n := by
          rw [show 8 * (n + 1) = 8 * n + 8 from rfl, Nat.pow_add, Nat.mul_add, Nat.mul_assoc]
          omega
      _ = 2 ^ (8 * n) * x.toNat + 2 ^ (8 * n) * y.toNat +
            (lower (addBytes a b out n).1 n + 2 ^ (8 * n) * carry) := by
          rw [hsum, Nat.mul_add, Nat.mul_add]
          omega
      _ = _ := by
          rw [hbelow]
          omega

theorem word_Add128 : word (Add128 a b) = word a + word b := by
  apply BitVec.eq_of_toNat_eq
  have hsum := lower_addBytes a b (fun _ => 0) 16 (Nat.le_refl 16)
  rw [BitVec.toNat_add, toNat_word, toNat_word, toNat_word, ← hsum, Nat.add_mul_mod_self_left]
  exact (Nat.mod_eq_of_lt (lower_lt _ 16)).symm

theorem lower_shifted (b : BitVec 64) (n : Nat) (hn : n ≤ 16) :
    lower (shifted b) n = b.toNat % 2 ^ (8 * n) := by
  induction n with
  | zero => exact (Nat.mod_one _).symm
  | succ n ih =>
    rw [lower, ih (Nat.le_of_succ_le hn), show 8 * (n + 1) = 8 * n + 8 from rfl, Nat.pow_add,
      Nat.mod_mul, digit, shifted, BitVec.toNat_ofNat, Nat.shiftRight_eq_div_pow, Fin.val_ofNat,
      show (15 - (15 - n) % 16) * 8 = 8 * n by omega]
    omega

/-- The second overload adds modulo 2^64 in the lower half, and leaves the upper half. -/
theorem lower_Add128U64 (c : BitVec 64) :
    lower (Add128U64 a c) 16 + 2 ^ 64 * ((lower a 8 + c.toNat) / 2 ^ 64) =
      lower a 16 + c.toNat := by
  have hsum := lower_addBytes a (shifted c) a 8 (by decide)
  have hupper := lower_agree a (Add128U64 a c) (show 8 ≤ 16 by decide)
    fun j hj hlt => digit_addBytes a (shifted c) a 8 j hj hlt
  have hlow := lower_lt (Add128U64 a c) 8
  rw [lower_shifted c 8 (by decide), Nat.mod_eq_of_lt c.isLt] at hsum
  change lower (Add128U64 a c) 8 + _ = _ at hsum
  omega

/-! ## What is expected of the three functions -/

/-- Rotation and both additions are those of the numbers. -/
structure KeyArithmetic (a b : AESKey) (r s : BitVec 32) (c : BitVec 64) : Prop where
  rotates : word (Lrot128 a r) = (word a).rotateLeft (r.toNat % 128)
  rotatesTwice : Lrot128 (Lrot128 a r) s = Lrot128 a (.ofNat 32 (r.toNat % 128 + s.toNat % 128))
  adds : word (Add128 a b) = word a + word b
  addsU64 : word (Add128U64 a c) = word a + c.setWidth 128
  agrees : word b = c.setWidth 128 → Add128U64 a c = Add128 a b

theorem word_Add128U64_iff (c : BitVec 64) :
    word (Add128U64 a c) = word a + c.setWidth 128 ↔ (word a).toNat % 2 ^ 64 + c.toNat < 2 ^ 64 := by
  have hsum := lower_Add128U64 a c
  have hlow : lower a 16 % 2 ^ 64 = lower a 8 := lower_mod a (show 8 ≤ 16 by decide)
  have hlt := lower_lt (Add128U64 a c) 16
  have hword := lower_lt a 16
  have hc := c.isLt
  rw [← BitVec.toNat_inj, BitVec.toNat_add, BitVec.toNat_setWidth, toNat_word, toNat_word, hlow]
  omega

/-- The three functions do what is expected of them exactly where adding the `u64` to the lower half
does not carry. -/
theorem keyArithmetic_iff (a b : AESKey) (r s : BitVec 32) (c : BitVec 64) :
    KeyArithmetic a b r s c ↔ (word a).toNat % 2 ^ 64 + c.toNat < 2 ^ 64 := by
  refine ⟨fun h => (word_Add128U64_iff a c).mp h.addsU64, fun h => ?_⟩
  have hadds := (word_Add128U64_iff a c).mpr h
  refine ⟨word_Lrot128 a r, Lrot128_Lrot128 a r s, word_Add128 a b, hadds, fun hb => ?_⟩
  apply word_inj
  rw [hadds, word_Add128, hb]

/-- A counter whose lower half is full: adding one clears it and leaves the upper half. -/
theorem keyArithmetic_fails :
    ¬KeyArithmetic (fun i => if i < 8 then 0 else 0xFF) (fun _ => 0) 0 0 1 := by
  intro h
  have hfits := (word_Add128U64_iff _ _).mp h.addsU64
  revert hfits
  decide

end GbaStation.Aes
