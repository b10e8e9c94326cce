import Mathlib.Logic.Basic

-- Words of single-bit flags, tested the way C tests them: by a mask and a comparison with zero.
namespace Flags

variable {w : Nat} {x y f : BitVec w}

def has (x f : BitVec w) : Bool :=
  x &&& f != 0

def bit (w i : Nat) : BitVec w :=
  1#w <<< i

theorem has_iff_bit : has x f ↔ ∃ i, x.getLsbD i ∧ f.getLsbD i := by
  have h : x &&& f = 0 ↔ ∀ i, ¬(x.getLsbD i ∧ f.getLsbD i) := by
    constructor
    case mp =>
      intro h i
      have := congrArg (·.getLsbD i) h
      simpa using this
    case mpr =>
      intro h
      refine BitVec.eq_of_getLsbD_eq fun i _ => ?_
      have := h i
      simp at this ⊢
      exact this
  rw [has, bne_iff_ne, ne_eq, h]
  simp

@[simp]
theorem has_or : has (x ||| y) f = (has x f || has y f) := by
  rw [Bool.eq_iff_iff, Bool.or_eq_true, has_iff_bit, has_iff_bit, has_iff_bit, ← exists_or]
  simp [or_and_right]

theorem has_or_right {g : BitVec w} : has x (f ||| g) = (has x f || has x g) := by
  rw [Bool.eq_iff_iff, Bool.or_eq_true, has_iff_bit, has_iff_bit, has_iff_bit, ← exists_or]
  simp [and_or_left]

@[simp]
theorem has_zero : has 0#w f = false := by
  simp [has]

@[simp]
theorem has_ite {c : Prop} [Decidable c] :
    has (if c then x else y) f = if c then has x f else has y f :=
  apply_ite (has · f) c x y

theorem getLsbD_bit {i j : Nat} (hi : i < w) : (bit w i).getLsbD j = decide (j = i) := by
  rw [bit, BitVec.getLsbD_shiftLeft, BitVec.getLsbD_one, Bool.eq_iff_iff]
  simp only [Bool.and_eq_true, decide_eq_true_iff, Bool.not_eq_true', decide_eq_false_iff_not]
  omega

theorem has_getLsbD {i : Nat} (hi : i < w) : has x (bit w i) = x.getLsbD i := by
  rw [Bool.eq_iff_iff, has_iff_bit]
  simp [getLsbD_bit hi]

-- Different bits do not overlap.
@[simp]
theorem has_bit {i j : Nat} (hj : j < w) : has (bit w i) (bit w j) = decide (i = j) := by
  rw [has_getLsbD hj]
  by_cases hi : i < w
  case pos => rw [getLsbD_bit hi, Bool.eq_iff_iff]; simp [eq_comm]
  case neg =>
    have : i ≠ j := by omega
    simp [bit, BitVec.shiftLeft_eq_zero (Nat.le_of_not_lt hi), this]

-- Clearing a bit.
theorem has_and_not_bit {i j : Nat} (hi : i < w) (hj : j < w) :
    has (x &&& ~~~bit w i) (bit w j) = (has x (bit w j) && decide (j ≠ i)) := by
  rw [has_getLsbD hj, has_getLsbD hj, BitVec.getLsbD_and, BitVec.getLsbD_not, getLsbD_bit hi]
  simp [hj]

-- Flipping a bit.
theorem has_xor_bit {i j : Nat} (hi : i < w) (hj : j < w) :
    has (x ^^^ bit w i) (bit w j) = (has x (bit w j) ^^ decide (j = i)) := by
  rw [has_getLsbD hj, has_getLsbD hj, BitVec.getLsbD_xor, getLsbD_bit hi]

-- The words agree wherever the mask has a bit.
theorem xor_and_eq_zero_iff {m : BitVec w} : (x ^^^ y) &&& m = 0#w ↔
    ∀ i < w, m.getLsbD i → x.getLsbD i = y.getLsbD i := by
  rw [BitVec.eq_of_getLsbD_eq_iff]
  refine forall₂_congr fun i _ => ?_
  cases hm : m.getLsbD i <;> simp [hm]

def flagIf (b : Bool) (f : BitVec w) : BitVec w :=
  if b then f else 0

@[simp]
theorem has_flagIf {b : Bool} {g : BitVec w} : has (flagIf b f) g = (b && has f g) := by
  cases b <;> simp [flagIf]

-- A condition among several: it only counts if its flag is set in `mask`, and inverted if it is set
-- in `inv`.
def clause (mask inv f : BitVec w) (cond : Bool) : Bool :=
  !(has mask f && (cond == has inv f))

theorem clause_iff {mask inv : BitVec w} {cond : Bool} :
    clause mask inv f cond ↔ (has mask f → (cond ↔ has inv f = false)) := by
  rw [clause]
  cases has mask f <;> cases cond <;> cases has inv f <;> simp

end Flags
