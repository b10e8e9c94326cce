import Mathlib.Data.Nat.Bitwise
import Mathlib.Order.Compare
import Mathlib.Tactic.Ring

-- Natural numbers stored as a little-endian list of fixed-width limbs, with the operations that
-- work limb by limb: comparison from the top, increment and decrement with carry from the bottom.
namespace Limbs

variable {w : Nat}

def value : List (BitVec w) → Nat
  | []      => 0
  | a :: as => a.toNat + 2 ^ w * value as

def cmp : List (BitVec w) → List (BitVec w) → Ordering
  | a :: as, b :: bs => (cmp as bs).then (compare a.toNat b.toNat)
  | _,       _       => .eq

def inc : List (BitVec w) → List (BitVec w)
  | []      => []
  | a :: as => if a + 1 = 0 then (a + 1) :: inc as else (a + 1) :: as

def dec : List (BitVec w) → List (BitVec w)
  | []      => []
  | a :: as => if a = 0 then (a - 1) :: dec as else (a - 1) :: as

variable {as bs : List (BitVec w)}

@[simp]
theorem value_nil : value ([] : List (BitVec w)) = 0 :=
  rfl

@[simp]
theorem value_cons {a : BitVec w} : value (a :: as) = a.toNat + 2 ^ w * value as :=
  rfl

@[simp]
theorem length_inc : (inc as).length = as.length := by
  induction as <;> simp [inc]
  case cons hi => split <;> simp [hi]

@[simp]
theorem length_dec : (dec as).length = as.length := by
  induction as <;> simp [dec]
  case cons hi => split <;> simp [hi]

theorem value_lt (as : List (BitVec w)) : value as < 2 ^ (w * as.length) := by
  induction as
  case nil => simp
  case cons a as hi =>
    have ha := a.isLt
    have hp : 2 ^ (w * (as.length + 1)) = 2 ^ w * 2 ^ (w * as.length) := by ring
    have hm := Nat.mul_le_mul_left (2 ^ w) (Nat.succ_le_of_lt hi)
    simp only [value_cons, List.length_cons, hp]
    rw [Nat.succ_eq_add_one, Nat.mul_add, Nat.mul_one] at hm
    omega

theorem exists_value {n k : Nat} (h : n < 2 ^ (w * k)) :
    ∃ as : List (BitVec w), as.length = k ∧ value as = n := by
  induction k generalizing n
  case zero => exact ⟨[], rfl, by simpa [eq_comm] using h⟩
  case succ k hi =>
    have hq : n / 2 ^ w < 2 ^ (w * k) := by
      rw [Nat.div_lt_iff_lt_mul (Nat.two_pow_pos w), ← Nat.pow_add]
      exact h
    obtain ⟨as, hl, hv⟩ := hi hq
    refine ⟨.ofNat w n :: as, by rw [List.length_cons, hl], ?_⟩
    rw [value_cons, hv, BitVec.toNat_ofNat, Nat.mod_add_div]

-- A limb is smaller than the weight of the next one, so the highest difference decides.
theorem compare_digit {a b x y m : Nat} (ha : a < m) (hb : b < m) :
    compare (a + m * x) (b + m * y) = (compare x y).then (compare a b) := by
  rcases Nat.lt_trichotomy x y with h | h | h
  case inl =>
    have := Nat.mul_le_mul_left m h
    rw [Nat.succ_eq_add_one, Nat.mul_add] at this
    rw [compare_lt_iff_lt.mpr h, compare_lt_iff_lt.mpr (by omega)]
    rfl
  case inr.inl =>
    subst h
    rw [compare_eq_iff_eq.mpr rfl]
    rcases Nat.lt_trichotomy a b with h | h | h
    · rw [compare_lt_iff_lt.mpr h, compare_lt_iff_lt.mpr (by omega)]; rfl
    · rw [compare_eq_iff_eq.mpr h, compare_eq_iff_eq.mpr (by omega)]; rfl
    · rw [compare_gt_iff_gt.mpr h, compare_gt_iff_gt.mpr (by omega)]; rfl
  case inr.inr =>
    have := Nat.mul_le_mul_left m h
    rw [Nat.succ_eq_add_one, Nat.mul_add] at this
    rw [compare_gt_iff_gt.mpr h, compare_gt_iff_gt.mpr (by omega)]
    rfl

theorem cmp_eq_compare (h : as.length = bs.length) : cmp as bs = compare (value as) (value bs) := by
  induction as generalizing bs <;> cases bs <;> simp at h
  case nil.nil => rfl
  case cons.cons a as hi b bs =>
    rw [cmp, hi h, value_cons, value_cons, compare_digit a.isLt b.isLt]

theorem value_injective (hl : as.length = bs.length) (h : value as = value bs) : as = bs := by
  induction as generalizing bs <;> cases bs <;> simp at hl
  case nil.nil => rfl
  case cons.cons a as hi b bs =>
    have ha := a.isLt
    have hb := b.isLt
    simp only [value_cons] at h
    have hd : a.toNat = b.toNat := by
      have := congrArg (· % 2 ^ w) h
      simpa [Nat.mod_eq_of_lt ha, Nat.mod_eq_of_lt hb] using this
    have ht : 2 ^ w * value as = 2 ^ w * value bs := by omega
    rw [BitVec.eq_of_toNat_eq hd, hi hl (Nat.eq_of_mul_eq_mul_left (Nat.two_pow_pos w) ht)]

theorem value_inc (h : value as + 1 < 2 ^ (w * as.length)) : value (inc as) = value as + 1 := by
  induction as
  case nil => simp at h
  case cons a as hi =>
    have ha := a.isLt
    have hp : 2 ^ (w * (as.length + 1)) = 2 ^ w * 2 ^ (w * as.length) := by ring
    have hs : (a + 1).toNat = (a.toNat + 1) % 2 ^ w := by simp [BitVec.toNat_add]
    simp only [value_cons, List.length_cons, hp] at h
    rw [inc]
    split
    case isTrue hz =>
      -- The limb wraps: the carry goes into the limbs above.
      have hc : a.toNat + 1 = 2 ^ w := by
        rw [hz] at hs
        simp at hs
        have := Nat.eq_of_dvd_of_lt_two_mul (by omega) (Nat.dvd_of_mod_eq_zero hs.symm) (by omega)
        omega
      have hlt : value as + 1 < 2 ^ (w * as.length) := by
        refine Nat.lt_of_mul_lt_mul_left (a := 2 ^ w) ?_
        rw [Nat.mul_add]
        omega
      rw [value_cons, hi hlt, hz, Nat.mul_add]
      simp
      omega
    case isFalse hz =>
      have hlt : a.toNat + 1 < 2 ^ w := by
        by_contra hc
        refine hz (BitVec.eq_of_toNat_eq ?_)
        rw [hs, show a.toNat + 1 = 2 ^ w by omega]
        simp
      rw [value_cons, hs, Nat.mod_eq_of_lt hlt, value_cons]
      omega

theorem value_dec (h : 0 < value as) : value (dec as) = value as - 1 := by
  induction as
  case nil => simp at h
  case cons a as hi =>
    have ha := a.isLt
    rw [dec]
    split
    case isTrue hz =>
      subst hz
      have hv : 0 < value as := by
        by_contra hc
        have : value as = 0 := by omega
        simp [this] at h
      have hm : ((0 : BitVec w) - 1).toNat = 2 ^ w - 1 := by
        cases w
        case zero => simp
        case succ w => simp [Nat.mod_eq_of_lt]
      have := Nat.mul_le_mul_left (2 ^ w) (Nat.succ_le_of_lt hv)
      have := Nat.two_pow_pos w
      have hz : (0 : BitVec w).toNat = 0 := by simp
      rw [value_cons, value_cons, hi hv, hm, hz, Nat.mul_sub]
      omega
    case isFalse hz =>
      have hp : 0 < a.toNat :=
        Nat.pos_of_ne_zero fun hc => hz (BitVec.eq_of_toNat_eq (by simpa using hc))
      have hm : (a - 1).toNat = a.toNat - 1 := by
        have h₁ : (1 : BitVec w).toNat = 1 := Nat.mod_eq_of_lt (by omega : 1 < 2 ^ w)
        rw [BitVec.toNat_sub_of_le (by rw [BitVec.le_def]; omega), h₁]
      rw [value_cons, hm, value_cons]
      omega

theorem testBit_value {i : Nat} (hw : 0 < w) :
    (value as).testBit i = (as.getD (i / w) 0).getLsbD (i % w) := by
  induction as generalizing i
  case nil => simp
  case cons a as hi =>
    rw [value_cons, Nat.add_comm, Nat.testBit_two_pow_mul_add _ a.isLt]
    split
    case isTrue hl => simp [Nat.div_eq_of_lt hl, Nat.mod_eq_of_lt hl, BitVec.testBit_toNat]
    case isFalse hl =>
      have hq : i / w = (i - w) / w + 1 := by
        rw [← Nat.add_div_right _ hw, Nat.sub_add_cancel (by omega)]
      have hr : i % w = (i - w) % w := by
        rw [← Nat.add_mod_right (i - w), Nat.sub_add_cancel (by omega)]
      rw [hi, hq, hr, List.getD_cons_succ]

end Limbs
