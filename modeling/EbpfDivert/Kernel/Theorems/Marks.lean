import EbpfDivert.Kernel.Process

open Shared

namespace Kernel

variable {k x : BitVec 32}

-- A mark consists of its kind in the upper half and a number in the lower half.
theorem upperHalf_or (hk : upperHalf k = k) : upperHalf (k ||| (x &&& 0xFFFF)) = k := by
  rw [upperHalf] at hk ⊢
  rw [BitVec.and_comm, BitVec.and_or_distrib_left, BitVec.and_comm, hk,
    BitVec.and_comm _ (x &&& _), BitVec.and_assoc, show (0xFFFF : BitVec 32) &&& 0xFFFF0000 = 0#32 from rfl,
    BitVec.and_zero, BitVec.or_zero]

theorem lowerHalf_or (hk : upperHalf k = k) : (k ||| (x &&& 0xFFFF)) &&& 0xFFFF = x &&& 0xFFFF := by
  have hz : 0xFFFF &&& k = 0#32 := by
    rw [← hk, upperHalf, BitVec.and_comm, BitVec.and_assoc]
    exact BitVec.and_zero
  rw [BitVec.and_comm, BitVec.and_or_distrib_left, hz, BitVec.zero_or, BitVec.and_comm,
    BitVec.and_assoc, BitVec.and_self]

theorem and_of_le (hx : x ≤ 0xFFFF) : x &&& 0xFFFF = x := by
  apply BitVec.eq_of_toNat_eq
  have hx : x.toNat ≤ 0xFFFF := hx
  have hm : (0xFFFF : BitVec 32).toNat = 2 ^ 16 - 1 := rfl
  rw [BitVec.toNat_and, hm, Nat.and_two_pow_sub_one_eq_mod]
  omega

-- The kinds of marks.
theorem upperHalf_loop : upperHalf loopPreventionMark = loopPreventionMark := by decide

theorem upperHalf_redirect : upperHalf redirectMarkMask = redirectMarkMask := by decide

theorem upperHalf_magic : upperHalf redirectPrioMagic = redirectPrioMagic := by decide

theorem upperHalf_redirected : upperHalf redirectedMark = redirectedMark := by decide

end Kernel
