import EbpfDivert.Wd.Basic

-- What the tests mean on numbers.
namespace Wd.Test

variable {t : Test} {v a : Nat}

def Sat : Test → Nat → Nat → Prop
  | eq,    v, a => v = a
  | neq,   v, a => v ≠ a
  | lt,    v, a => v < a
  | leq,   v, a => v ≤ a
  | gt,    v, a => a < v
  | geq,   v, a => a ≤ v
  | other, _, _ => False

instance : Decidable (t.Sat v a) :=
  match t with
  | eq    => inferInstanceAs (Decidable (v = a))
  | neq   => inferInstanceAs (Decidable (v ≠ a))
  | lt    => inferInstanceAs (Decidable (v < a))
  | leq   => inferInstanceAs (Decidable (v ≤ a))
  | gt    => inferInstanceAs (Decidable (a < v))
  | geq   => inferInstanceAs (Decidable (a ≤ v))
  | other => inferInstanceAs (Decidable False)

theorem holds_compare (h : t ≠ other) : t.holds (compare v a) = some (decide (t.Sat v a)) := by
  have hs : t.holds (compare v a) = some true ↔ t.Sat v a := by
    rcases Nat.lt_trichotomy v a with hv | hv | hv
    case inl     => rw [Nat.compare_eq_lt.mpr hv]; cases t <;> simp [holds, Sat] <;> omega
    case inr.inl => rw [Nat.compare_eq_eq.mpr hv]; cases t <;> simp [holds, Sat] <;> omega
    case inr.inr => rw [Nat.compare_eq_gt.mpr hv]; cases t <;> simp [holds, Sat] <;> omega
  cases hc : t.holds (compare v a)
  case none   => cases t <;> simp_all [holds]
  case some b => cases b <;> simp_all

-- The argument may be negative, and any value is greater than that.
def SatSigned (t : Test) (neg : Bool) (v a : Nat) : Prop :=
  if neg then t = .neq ∨ t = .gt ∨ t = .geq else t.Sat v a

instance {neg : Bool} : Decidable (t.SatSigned neg v a) :=
  match neg with
  | true  => inferInstanceAs (Decidable (_ ∨ _))
  | false => inferInstanceAs (Decidable (t.Sat v a))

@[simp]
theorem satSigned_false : t.SatSigned false v a ↔ t.Sat v a := .rfl

@[simp]
theorem satSigned_true : t.SatSigned true v a ↔ t = .neq ∨ t = .gt ∨ t = .geq := .rfl

theorem holds_signed {neg : Bool} (h : t ≠ other) :
    t.holds (if neg then .gt else compare v a) = some (decide (t.SatSigned neg v a)) := by
  cases neg
  case false => exact holds_compare h
  case true  => cases t <;> simp_all [holds]

end Wd.Test
