import EbpfDivert.Primitives.CString
import Mathlib.Tactic.IntervalCases
import Mathlib.Tactic.Ring

-- Digits from the top: numbers that are written without their leading zeros, and read back.
namespace Digits

variable {b k n d r : Nat} {zeroes : Bool} {s : CString}

-- The lowest `k` digits, without zeros at the front unless another digit came before. A number
-- without any digit is written as zero.
def fromTop (b : Nat) : (k : Nat) → (zeroes : Bool) → (n : Nat) → CString
  | 0,     zeroes, _ => if zeroes then [] else ['0']
  | k + 1, zeroes, n =>
    if n / b ^ k % b = 0 ∧ ¬zeroes then fromTop b k false n
    else Nat.digitChar (n / b ^ k % b) :: fromTop b k true n

theorem digit_mod (hk : r < k) : n % b ^ k / b ^ r % b = n / b ^ r % b := by
  obtain ⟨j, rfl⟩ := Nat.exists_eq_add_of_lt hk
  rw [show r + j + 1 = r + (j + 1) by omega, Nat.pow_add, Nat.mod_mul_right_div_self, Nat.pow_succ,
    Nat.mod_mul_left_mod]

-- Only the lowest `k` digits matter.
theorem fromTop_congr {m : Nat} (h : m % b ^ k = n % b ^ k) : fromTop b k zeroes m = fromTop b k zeroes n := by
  induction k generalizing zeroes
  case zero => rfl
  case succ k ih =>
    have hd : m / b ^ k % b = n / b ^ k % b := by
      rw [← digit_mod (Nat.lt_succ_self k), h, digit_mod (Nat.lt_succ_self k)]
    have hr : m % b ^ k = n % b ^ k := by
      rw [Nat.pow_succ] at h
      rw [← Nat.mod_mul_right_mod m (b ^ k) b, h, Nat.mod_mul_right_mod]
    simp only [fromTop, hd, ih hr]

-- The same digits, with the lowest one split off.
theorem fromTop_true_succ : fromTop b (k + 1) true n = fromTop b k true (n / b) ++ [Nat.digitChar (n % b)] := by
  induction k
  case zero => simp [fromTop]
  case succ k ih =>
    have hd : n / b ^ (k + 1) = n / b / b ^ k := by rw [Nat.div_div_eq_div_mul, Nat.pow_succ, Nat.mul_comm]
    rw [fromTop, if_neg (by simp), ih, hd]
    conv_rhs => rw [fromTop, if_neg (by simp)]
    rfl

theorem toDigits_eq_cons (hb : 1 < b) (hd : 0 < d) (hdb : d < b) (hr : r < b ^ k) :
    Nat.toDigits b (d * b ^ k + r) = Nat.digitChar d :: fromTop b k true r := by
  induction k generalizing r
  case zero =>
    rw [Nat.pow_zero, Nat.lt_one_iff] at hr
    subst hr
    simp [fromTop, Nat.toDigits_of_lt_base hdb]
  case succ k ih =>
    have hle : b ≤ d * b ^ (k + 1) + r := by
      rw [Nat.pow_succ]
      have := Nat.le_mul_of_pos_left b (Nat.mul_pos hd (Nat.pow_pos (n := k) (by omega : 0 < b)))
      rw [Nat.mul_assoc] at this
      omega
    have hdiv : (d * b ^ (k + 1) + r) / b = d * b ^ k + r / b := by
      rw [Nat.pow_succ, ← Nat.mul_assoc, Nat.mul_comm _ b, Nat.mul_add_div (by omega)]
    have hmod : (d * b ^ (k + 1) + r) % b = r % b := by
      rw [Nat.pow_succ, ← Nat.mul_assoc, Nat.mul_add_mod_self_right]
    have hlt : r / b < b ^ k := by
      rwa [Nat.div_lt_iff_lt_mul (by omega), ← Nat.pow_succ]
    rw [Nat.toDigits_of_base_le hb hle, hdiv, hmod, ih hlt, fromTop_true_succ]
    rfl

-- What is written are the digits of the number.
theorem fromTop_eq_toDigits (hb : 1 < b) (hn : n < b ^ k) : fromTop b k false n = Nat.toDigits b n := by
  induction k
  case zero =>
    rw [Nat.pow_zero, Nat.lt_one_iff] at hn
    subst hn
    exact (Nat.toDigits_zero b).symm
  case succ k ih =>
    have hlt : n / b ^ k < b := by
      rwa [Nat.div_lt_iff_lt_mul (Nat.pow_pos (by omega)), Nat.mul_comm, ← Nat.pow_succ]
    have hp : 0 < b ^ k := Nat.pow_pos (by omega)
    rw [fromTop, Nat.mod_eq_of_lt hlt]
    split
    case isTrue h => exact ih ((Nat.div_eq_zero_iff_lt hp).mp h.1)
    case isFalse h =>
      have hd : 0 < n / b ^ k := Nat.pos_of_ne_zero fun hz => h ⟨hz, by simp⟩
      have hdigits := toDigits_eq_cons hb hd hlt (Nat.mod_lt n hp)
      rw [Nat.mul_comm, Nat.div_add_mod] at hdigits
      rw [hdigits, fromTop_congr (Nat.mod_mod n (b ^ k)).symm]

section Read

theorem digitVal_digitChar (hd : d < 16) : CString.digitVal (Nat.digitChar d) = d := by
  interval_cases d <;> rfl

theorem mem_toDigits {c : Char} (hb : 1 < b) (h : c ∈ Nat.toDigits b n) : ∃ d < b, c = Nat.digitChar d := by
  induction n using Nat.strong_induction_on
  case _ n ih =>
    rw [Nat.toDigits_eq_if hb] at h
    split at h
    case isTrue hn => exact ⟨n, hn, List.mem_singleton.mp h⟩
    case isFalse hn =>
      rcases List.mem_append.mp h with h | h
      case inl => exact ih (n / b) (Nat.div_lt_self (by omega) hb) h
      case inr => exact ⟨n % b, Nat.mod_lt _ (by omega), List.mem_singleton.mp h⟩

theorem foldl_toDigits (hb : 1 < b) (hb' : b ≤ 16) :
    (Nat.toDigits b n).foldl (fun m c => b * m + CString.digitVal c) 0 = n := by
  induction n using Nat.strong_induction_on
  case _ n ih =>
    rw [Nat.toDigits_eq_if hb]
    split
    case isTrue hn => simp [digitVal_digitChar (by omega : n < 16)]
    case isFalse hn =>
      have hlt : n % b < 16 := Nat.lt_of_lt_of_le (Nat.mod_lt n (by omega)) hb'
      rw [List.foldl_append, ih (n / b) (Nat.div_lt_self (by omega) hb)]
      simp only [List.foldl_cons, List.foldl_nil, digitVal_digitChar hlt]
      exact Nat.div_add_mod n b

end Read

end Digits
