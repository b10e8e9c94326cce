import Mathlib.Algebra.Group.Nat.Defs

-- Byte strings with reads in network byte order. A read past the end yields zero bytes: callers
-- check the length before they read.
abbrev Bytes := List (BitVec 8)

namespace Bytes

def byte (b : Bytes) (i : Nat) : BitVec 8 :=
  b.getD i 0

def be16 (b : Bytes) (i : Nat) : BitVec 16 :=
  b.byte i ++ b.byte (i + 1)

def be32 (b : Bytes) (i : Nat) : BitVec 32 :=
  b.be16 i ++ b.be16 (i + 2)

def be64 (b : Bytes) (i : Nat) : BitVec 64 :=
  b.be32 i ++ b.be32 (i + 4)

section Slice

variable {b : Bytes} {i k n : Nat}

-- A prefix of the bytes reads the same inside.
theorem byte_take (h : i < n) : byte (b.take n) i = b.byte i := by
  simp [byte, List.getD_eq_getElem?_getD, h]

theorem be16_take (h : i + 2 ≤ n) : be16 (b.take n) i = b.be16 i := by
  simp [be16, byte_take (show i < n by omega), byte_take (show i + 1 < n by omega)]

theorem be32_take (h : i + 4 ≤ n) : be32 (b.take n) i = b.be32 i := by
  simp [be32, be16_take (show i + 2 ≤ n by omega), be16_take (show i + 2 + 2 ≤ n by omega)]

theorem take_drop_take (h : i + k ≤ n) : ((b.take n).drop i).take k = (b.drop i).take k := by
  rw [List.drop_take, List.take_take, Nat.min_eq_left (by omega)]

@[simp]
theorem byte_drop : byte (b.drop k) i = b.byte (k + i) := by
  simp [byte, List.getD_eq_getElem?_getD]

@[simp]
theorem be16_drop : be16 (b.drop k) i = b.be16 (k + i) := by
  simp [be16, Nat.add_assoc]

@[simp]
theorem be32_drop : be32 (b.drop k) i = b.be32 (k + i) := by
  simp [be32, Nat.add_assoc]

theorem take_drop_eq (h : k + n ≤ b.length) :
    (b.drop k).take n = (List.range n).map fun i => b.byte (k + i) := by
  refine List.ext_getElem (by simp; omega) fun i hi _ => ?_
  have hi : k + i < b.length := by simp at hi; omega
  simp [byte, List.getD_eq_getElem?_getD, hi]

end Slice

theorem toNat_append {m n : Nat} (x : BitVec m) (y : BitVec n) :
    (x ++ y).toNat = x.toNat * 2 ^ n + y.toNat := by
  rw [BitVec.toNat_append, ← Nat.shiftLeft_add_eq_or_of_lt y.isLt, Nat.shiftLeft_eq]

section Value

variable {b : Bytes} {i : Nat}

theorem toNat_be16 : (b.be16 i).toNat = (b.byte i).toNat * 2 ^ 8 + (b.byte (i + 1)).toNat :=
  toNat_append ..

theorem toNat_be32 : (b.be32 i).toNat = (b.be16 i).toNat * 2 ^ 16 + (b.be16 (i + 2)).toNat :=
  toNat_append ..

theorem toNat_be64 : (b.be64 i).toNat = (b.be32 i).toNat * 2 ^ 32 + (b.be32 (i + 4)).toNat :=
  toNat_append ..

end Value

-- The bytes are in the word from the top.
theorem getLsbD_be16 {b : Bytes} {i j : Nat} (hj : j < 16) :
    (b.be16 i).getLsbD j = (b.byte (i + (1 - j / 8))).getLsbD (j % 8) := by
  rw [be16, BitVec.getLsbD_append]
  by_cases h : j < 8
  case pos => rw [if_pos h, show 1 - j / 8 = 1 by omega, show j % 8 = j by omega]
  case neg => rw [if_neg h, show i + (1 - j / 8) = i by omega, show j % 8 = j - 8 by omega]

theorem getLsbD_be32 {b : Bytes} {i j : Nat} (hj : j < 32) :
    (b.be32 i).getLsbD j = (b.byte (i + (3 - j / 8))).getLsbD (j % 8) := by
  rw [be32, BitVec.getLsbD_append]
  by_cases h : j < 16
  case pos => rw [if_pos h, getLsbD_be16 h, show i + 2 + (1 - j / 8) = i + (3 - j / 8) by omega]
  case neg =>
    rw [if_neg h, getLsbD_be16 (by omega), show 1 - (j - 16) / 8 = 3 - j / 8 by omega,
      show (j - 16) % 8 = j % 8 by omega]

theorem getLsbD_be64 {b : Bytes} {i j : Nat} (hj : j < 64) :
    (b.be64 i).getLsbD j = (b.byte (i + (7 - j / 8))).getLsbD (j % 8) := by
  rw [be64, BitVec.getLsbD_append]
  by_cases h : j < 32
  case pos => rw [if_pos h, getLsbD_be32 h, show i + 4 + (3 - j / 8) = i + (7 - j / 8) by omega]
  case neg =>
    rw [if_neg h, getLsbD_be32 (by omega), show 3 - (j - 32) / 8 = 7 - j / 8 by omega,
      show (j - 32) % 8 = j % 8 by omega]

theorem setWidth_be32 {b : Bytes} {i j : Nat} (hj : j < 4) :
    (b.be32 i >>> (24 - 8 * j)).setWidth 8 = b.byte (i + j) := by
  refine BitVec.eq_of_getLsbD_eq fun k hk => ?_
  simp only [BitVec.getLsbD_setWidth, BitVec.getLsbD_ushiftRight, hk, decide_true, Bool.true_and]
  rw [getLsbD_be32 (by omega), show 3 - (24 - 8 * j + k) / 8 = j by omega,
    show (24 - 8 * j + k) % 8 = k by omega]

-- Comparing a word under a mask is comparing its bytes.
theorem and_be64_eq_iff {a b m : Bytes} {i : Nat} : a.be64 i &&& m.be64 i = b.be64 i &&& m.be64 i ↔
    ∀ j < 8, a.byte (i + j) &&& m.byte (i + j) = b.byte (i + j) &&& m.byte (i + j) := by
  constructor
  case mp =>
    intro h j hj
    refine BitVec.eq_of_getLsbD_eq fun k hk => ?_
    have := congrArg (·.getLsbD (8 * (7 - j) + k)) h
    simp only [BitVec.getLsbD_and] at this ⊢
    rwa [getLsbD_be64 (by omega), getLsbD_be64 (by omega), getLsbD_be64 (by omega),
      show 7 - (8 * (7 - j) + k) / 8 = j by omega, show (8 * (7 - j) + k) % 8 = k by omega] at this
  case mpr =>
    intro h
    refine BitVec.eq_of_getLsbD_eq fun k hk => ?_
    have := congrArg (·.getLsbD (k % 8)) (h (7 - k / 8) (by omega))
    simp only [BitVec.getLsbD_and] at this ⊢
    rwa [getLsbD_be64 hk, getLsbD_be64 hk, getLsbD_be64 hk]

end Bytes
