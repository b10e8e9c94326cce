import EbpfDivert.Primitives.Limbs

-- Multiplication and addition of limbs, with a carry from the bottom to the top.
namespace Limbs

variable {w : Nat} {as : List (BitVec w)} {m c t i : Nat}

-- The limbs of a multiple of a number plus `c`, and what is carried out of the last one.
def mulAdd (m : Nat) : (c : Nat) → List (BitVec w) → List (BitVec w) × Nat
  | c, []      => ([], c)
  | c, a :: as =>
    let t := a.toNat * m + c
    (.ofNat w t :: (mulAdd m (t / 2 ^ w) as).1, (mulAdd m (t / 2 ^ w) as).2)

-- `t` is added at the limb `i`, and the carry goes on as long as there is one. What is left of it
-- behind the last limb comes second.
def addAt : (t i : Nat) → List (BitVec w) → List (BitVec w) × Nat
  | t, _,     []      => ([], t)
  | t, i + 1, a :: as => (a :: (addAt t i as).1, (addAt t i as).2)
  | t, 0,     a :: as =>
    if t = 0 then (a :: as, 0) else
    let s := a.toNat + t % 2 ^ w
    (.ofNat w s :: (addAt (t / 2 ^ w + s / 2 ^ w) 0 as).1, (addAt (t / 2 ^ w + s / 2 ^ w) 0 as).2)

@[simp]
theorem length_mulAdd : (mulAdd m c as).1.length = as.length := by
  induction as generalizing c
  case nil => rfl
  case cons ih => simp [mulAdd, ih]

theorem value_mulAdd :
    value (mulAdd m c as).1 + 2 ^ (w * as.length) * (mulAdd m c as).2 = value as * m + c := by
  induction as generalizing c
  case nil => simp [mulAdd]
  case cons a as ih =>
    have hp : 2 ^ (w * (as.length + 1)) = 2 ^ w * 2 ^ (w * as.length) := by ring
    have hm := Nat.mod_add_div (a.toNat * m + c) (2 ^ w)
    simp only [mulAdd, value_cons, List.length_cons, hp, BitVec.toNat_ofNat]
    calc
      _ = (a.toNat * m + c) % 2 ^ w + 2 ^ w * (value (mulAdd m ((a.toNat * m + c) / 2 ^ w) as).1 +
            2 ^ (w * as.length) * (mulAdd m ((a.toNat * m + c) / 2 ^ w) as).2) := by ring
      _ = (a.toNat * m + c) % 2 ^ w + 2 ^ w * ((a.toNat * m + c) / 2 ^ w) + 2 ^ w * (value as * m) := by
            rw [ih]
            ring
      _ = (a.toNat + 2 ^ w * value as) * m + c := by
            rw [hm]
            ring

@[simp]
theorem length_addAt : (addAt t i as).1.length = as.length := by
  induction as generalizing t i
  case nil => rfl
  case cons ih =>
    cases i
    case zero => rw [addAt]; split <;> simp [ih]
    case succ => simp [addAt, ih]

theorem value_addAt (hi : i ≤ as.length) :
    value (addAt t i as).1 + 2 ^ (w * as.length) * (addAt t i as).2 = value as + 2 ^ (w * i) * t := by
  induction as generalizing t i
  case nil =>
    cases Nat.le_zero.mp hi
    simp [addAt]
  case cons a as ih =>
    have hp (k : Nat) : 2 ^ (w * (k + 1)) = 2 ^ w * 2 ^ (w * k) := by ring
    cases i
    case succ i =>
      have := ih (t := t) (Nat.le_of_succ_le_succ hi)
      simp only [addAt, value_cons, List.length_cons, hp]
      calc
        _ = a.toNat + 2 ^ w * (value (addAt t i as).1 + 2 ^ (w * as.length) * (addAt t i as).2) := by ring
        _ = _ := by rw [this]; ring
    case zero =>
      rw [addAt]
      split
      case isTrue h => simp [h]
      case isFalse =>
        have := ih (t := t / 2 ^ w + (a.toNat + t % 2 ^ w) / 2 ^ w) (Nat.zero_le _)
        have hs := Nat.mod_add_div (a.toNat + t % 2 ^ w) (2 ^ w)
        have ht := Nat.mod_add_div t (2 ^ w)
        simp only [value_cons, List.length_cons, hp, BitVec.toNat_ofNat]
        simp only [Nat.mul_zero, Nat.pow_zero, Nat.one_mul] at this ⊢
        generalize addAt (t / 2 ^ w + (a.toNat + t % 2 ^ w) / 2 ^ w) 0 as = r at this
        calc
          _ = (a.toNat + t % 2 ^ w) % 2 ^ w + 2 ^ w * (value r.1 + 2 ^ (w * as.length) * r.2) := by ring
          _ = (a.toNat + t % 2 ^ w) % 2 ^ w + 2 ^ w * ((a.toNat + t % 2 ^ w) / 2 ^ w) +
                2 ^ w * (t / 2 ^ w) + 2 ^ w * value as := by rw [this]; ring
          _ = a.toNat + (t % 2 ^ w + 2 ^ w * (t / 2 ^ w)) + 2 ^ w * value as := by rw [hs]; ring
          _ = a.toNat + 2 ^ w * value as + t := by rw [ht]; ring

-- Where the sum fits, nothing is left of the carry.
theorem addAt_of_lt (hi : i ≤ as.length) (h : value as + 2 ^ (w * i) * t < 2 ^ (w * as.length)) :
    value (addAt t i as).1 = value as + 2 ^ (w * i) * t ∧ (addAt t i as).2 = 0 := by
  have hv := value_addAt (t := t) hi
  have hz : (addAt t i as).2 = 0 := by
    by_contra hne
    have := Nat.le_mul_of_pos_right (2 ^ (w * as.length)) (Nat.pos_of_ne_zero hne)
    omega
  exact ⟨by rw [hz] at hv; omega, hz⟩

-- The limb `q` of a number.
theorem value_div_mod {q : Nat} : value as / 2 ^ (w * q) % 2 ^ w = (as.getD q 0).toNat := by
  induction as generalizing q
  case nil => simp
  case cons a as ih =>
    have ha := a.isLt
    cases q
    case zero => simp [Nat.mod_eq_of_lt ha]
    case succ q =>
      have hd : (a.toNat + 2 ^ w * value as) / 2 ^ w = value as := by
        rw [Nat.add_mul_div_left _ _ (Nat.two_pow_pos w), Nat.div_eq_of_lt ha, Nat.zero_add]
      rw [value_cons, show w * (q + 1) = w + w * q by ring, Nat.pow_add, ← Nat.div_div_eq_div_mul, hd, ih,
        List.getD_cons_succ]

end Limbs
