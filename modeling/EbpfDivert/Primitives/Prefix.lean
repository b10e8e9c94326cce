import Mathlib.Data.Nat.Bitwise
import Mathlib.Tactic.Ring

-- Blocks of numbers that share all bits from position `m` upwards.
namespace Prefix

variable {m a b lo hi v : Nat}

def Agree (m a b : Nat) : Prop :=
  a / 2 ^ m = b / 2 ^ m

theorem agree_iff_testBit : Agree m a b ↔ ∀ i, m ≤ i → a.testBit i = b.testBit i := by
  constructor
  case mp =>
    intro h i hi
    have := congrArg (·.testBit (i - m)) h
    simpa [Nat.testBit_div_two_pow, Nat.sub_add_cancel hi] using this
  case mpr =>
    intro h
    refine Nat.eq_of_testBit_eq fun i => ?_
    simp [Nat.testBit_div_two_pow, h (i + m) (by omega)]

-- What a number is in its block depends on the bits below position `m` only.
theorem mod_two_pow_eq_iff_testBit (hb : b < 2 ^ m) :
    a % 2 ^ m = b ↔ ∀ i < m, a.testBit i = b.testBit i := by
  constructor
  case mp =>
    intro h i hi
    rw [← h, Nat.testBit_mod_two_pow, decide_eq_true hi, Bool.true_and]
  case mpr =>
    intro h
    refine Nat.eq_of_testBit_eq fun i => ?_
    rw [Nat.testBit_mod_two_pow]
    by_cases hi : i < m
    case pos => rw [decide_eq_true hi, Bool.true_and, h i hi]
    case neg =>
      have hle := Nat.pow_le_pow_right Nat.two_pos (Nat.le_of_not_lt hi)
      rw [decide_eq_false hi, Bool.false_and, Nat.testBit_lt_two_pow (hb.trans_le hle)]

theorem mod_two_pow_eq_zero_iff_testBit : a % 2 ^ m = 0 ↔ ∀ i < m, a.testBit i = false := by
  simp [mod_two_pow_eq_iff_testBit (Nat.two_pow_pos m)]

theorem mod_two_pow_eq_max_iff_testBit : a % 2 ^ m = 2 ^ m - 1 ↔ ∀ i < m, a.testBit i = true := by
  rw [mod_two_pow_eq_iff_testBit (Nat.sub_lt (Nat.two_pow_pos m) Nat.one_pos)]
  refine forall₂_congr fun i hi => ?_
  rw [Nat.testBit_two_pow_sub_one, decide_eq_true hi]

-- An interval whose ends share a prefix lies inside the block of that prefix.
theorem Agree.of_mem_Icc (h : Agree m lo hi) (hl : lo ≤ v) (hh : v ≤ hi) : Agree m v lo := by
  have h₁ : lo / 2 ^ m ≤ v / 2 ^ m := Nat.div_le_div_right hl
  have h₂ : v / 2 ^ m ≤ hi / 2 ^ m := Nat.div_le_div_right hh
  have h₃ : lo / 2 ^ m = hi / 2 ^ m := h
  exact Nat.le_antisymm (h₃ ▸ h₂) h₁

-- An interval that starts at the first and ends at the last number of a block is the block.
theorem agree_iff_mem_Icc (h : Agree m lo hi) (hl : lo % 2 ^ m = 0) (hh : hi % 2 ^ m = 2 ^ m - 1) :
    Agree m v lo ↔ lo ≤ v ∧ v ≤ hi := by
  refine ⟨fun hv => ?_, fun ⟨h₁, h₂⟩ => h.of_mem_Icc h₁ h₂⟩
  have h₁ := Nat.div_add_mod lo (2 ^ m)
  have h₂ := Nat.div_add_mod hi (2 ^ m)
  have h₃ := Nat.div_add_mod v (2 ^ m)
  have h₄ := Nat.mod_lt v (Nat.two_pow_pos m)
  rw [Agree] at h hv
  rw [hl, ← hv] at h₁
  rw [hh, ← h, ← hv] at h₂
  omega

theorem Agree.symm (h : Agree m a b) : Agree m b a :=
  Eq.symm h

theorem Agree.trans {c : Nat} (h₁ : Agree m a b) (h₂ : Agree m b c) : Agree m a c :=
  Eq.trans h₁ h₂

theorem Agree.congr_right {c : Nat} (h : Agree m b c) : Agree m a b ↔ Agree m a c :=
  ⟨fun hb => hb.trans h, fun hc => hc.trans h.symm⟩

-- Every position in a block is taken by one of its numbers, and none of them is too large if the
-- block is one of numbers of `w` bits.
theorem agree_of_offset {r : Nat} (hr : r < 2 ^ m) : Agree m (2 ^ m * (a / 2 ^ m) + r) a := by
  rw [Agree, Nat.mul_add_div (Nat.two_pow_pos m), Nat.div_eq_of_lt hr, Nat.add_zero]

theorem Agree.lt_two_pow {w : Nat} (h : Agree m a b) (hm : m ≤ w) (hb : b < 2 ^ w) : a < 2 ^ w := by
  have hw : 2 ^ w = 2 ^ (w - m) * 2 ^ m := by
    rw [← Nat.pow_add, Nat.sub_add_cancel hm]
  have hp := Nat.two_pow_pos m
  rw [hw, ← Nat.div_lt_iff_lt_mul hp] at hb ⊢
  rwa [show a / 2 ^ m = b / 2 ^ m from h]

-- A block is an interval of numbers of `w` bits only if the interval starts and ends with it.
theorem agree_iff_mem_Icc_iff {w : Nat} (h : Agree m lo hi) (hm : m ≤ w) (hlo : lo < 2 ^ w) :
    (∀ v < 2 ^ w, Agree m v lo ↔ lo ≤ v ∧ v ≤ hi) ↔
      lo % 2 ^ m = 0 ∧ hi % 2 ^ m = 2 ^ m - 1 := by
  refine ⟨fun hv => ?_, fun ⟨hl, hh⟩ v _ => agree_iff_mem_Icc h hl hh⟩
  have hp := Nat.two_pow_pos m
  have mem {r : Nat} (hr : r < 2 ^ m) :
      lo ≤ 2 ^ m * (lo / 2 ^ m) + r ∧ 2 ^ m * (lo / 2 ^ m) + r ≤ hi :=
    (hv _ ((agree_of_offset hr).lt_two_pow hm hlo)).mp (agree_of_offset hr)
  have h₁ := Nat.div_add_mod lo (2 ^ m)
  have h₂ := Nat.div_add_mod hi (2 ^ m)
  have h₃ := Nat.mod_lt hi hp
  rw [← show lo / 2 ^ m = hi / 2 ^ m from h] at h₂
  constructor
  case left =>
    have := (mem hp).left
    omega
  case right =>
    have := (mem (Nat.sub_lt hp Nat.one_pos)).right
    omega

end Prefix
