import EbpfDivert.Wd.Test

open Wd (Test)
open Words

namespace Prefilter

-- A range of 128-bit addresses, possibly without one point.
structure PfAddr where
  lo   : Words
  hi   : Words
  excl : Option Words
deriving DecidableEq

namespace PfAddr

variable {a a' : PfAddr} {v arg : Words} {test : Test} {e : Bool}

def full : PfAddr where
  lo   := .zero
  hi   := .ones
  excl := none

def isFull (a : PfAddr) : Bool :=
  a.excl.isNone ∧ cmp128 a.lo .zero = .eq ∧ cmp128 a.hi .ones = .eq

-- The end of `addr_apply` for the order tests.
def finish (a : PfAddr) : Option (PfAddr × Bool) :=
  if cmp128 a.lo a.hi = .gt then none
  else if ∃ x ∈ a.excl, cmp128 x a.lo = .lt ∨ cmp128 x a.hi = .gt then
    some ({ a with excl := none }, true)
  else
    some (a, true)

def below (a : PfAddr) (v : Words) : Option (PfAddr × Bool) :=
  finish { a with hi := if cmp128 v a.hi = .lt then v else a.hi }

def above (a : PfAddr) (v : Words) : Option (PfAddr × Bool) :=
  finish { a with lo := if cmp128 v a.lo = .gt then v else a.lo }

-- Intersect with `v <test> arg`, as for ranges.
def apply (a : PfAddr) (test : Test) (v : Words) : Option (PfAddr × Bool) :=
  match test with
  | .eq    =>
    if cmp128 v a.lo = .lt ∨ cmp128 v a.hi = .gt then none
    else if ∃ x ∈ a.excl, cmp128 v x = .eq then none
    else some (⟨v, v, none⟩, true)
  | .neq   =>
    if cmp128 v a.lo = .lt ∨ cmp128 v a.hi = .gt then some (a, true)
    else if cmp128 v a.lo = .eq ∧ cmp128 v a.hi = .eq then none
    else if cmp128 v a.lo = .eq then some ({ a with lo := a.lo.inc128 }, true)
    else if cmp128 v a.hi = .eq then some ({ a with hi := a.hi.dec128 }, true)
    else if a.excl.isSome then some (a, false)
    else some ({ a with excl := some v }, true)
  | .lt    => if cmp128 v .zero = .eq then none else a.below v.dec128
  | .leq   => a.below v
  | .gt    => if cmp128 v .ones = .eq then none else a.above v.inc128
  | .geq   => a.above v
  | .other => some (a, false)

def Mem (a : PfAddr) (v : Words) : Prop :=
  a.lo.value ≤ v.value ∧ v.value ≤ a.hi.value ∧ ∀ x ∈ a.excl, v.value ≠ x.value

@[simp]
theorem mem_full : full.Mem v := by
  have := v.value_lt
  simp [Mem, full]
  omega

-- The outcome of intersecting with a set, as for ranges.
def Narrows (a : PfAddr) (p : Words → Prop) : Option (PfAddr × Bool) → Prop
  | none         => ∀ v, a.Mem v → ¬p v
  | some (a', e) => (∀ v, a.Mem v → p v → a'.Mem v) ∧ (e → ∀ v, a'.Mem v → a.Mem v ∧ p v)

theorem Narrows.of_iff {p : Words → Prop} (h : ∀ v, a'.Mem v ↔ a.Mem v ∧ p v) :
    a.Narrows p (some (a', true)) :=
  ⟨fun v hv hp => (h v).mpr ⟨hv, hp⟩, fun _ v hv => (h v).mp hv⟩

theorem finish_narrows {p : Words → Prop} (h : ∀ v, a'.Mem v ↔ a.Mem v ∧ p v) :
    a.Narrows p (finish a') := by
  simp only [finish, cmp128_eq_lt, cmp128_eq_gt]
  split_ifs with hl he
  case pos =>
    intro v hv hp
    obtain ⟨_, _, _⟩ := (h v).mpr ⟨hv, hp⟩
    omega
  case pos =>
    -- The excluded point is not in the interval, so dropping it changes nothing.
    refine .of_iff fun v => Iff.trans ?_ (h v)
    obtain ⟨x, hx, ho⟩ := he
    rw [Option.mem_def] at hx
    simp only [Mem, hx, Option.mem_def, Option.some.injEq, forall_eq']
    grind
  case neg => exact .of_iff h

theorem below_narrows : a.Narrows (·.value ≤ v.value) (a.below v) := by
  refine finish_narrows fun u => ?_
  simp only [Mem, cmp128_eq_lt]
  grind

theorem above_narrows : a.Narrows (v.value ≤ ·.value) (a.above v) := by
  refine finish_narrows fun u => ?_
  simp only [Mem, cmp128_eq_gt]
  grind

theorem apply_narrows (a : PfAddr) (arg : Words) (ht : test ≠ .other) :
    a.Narrows (test.Sat ·.value arg.value) (a.apply test arg) := by
  cases test <;> simp only [Test.Sat, apply, cmp128_eq_lt, cmp128_eq_gt, cmp128_eq_eq]
  case leq   => exact below_narrows
  case geq   => exact above_narrows
  case other => contradiction
  case lt =>
    split_ifs with h
    case pos => intro u _; rw [h]; simp
    case neg =>
      rw [value_zero] at h
      have hn := below_narrows (a := a) (v := arg.dec128)
      have hd := value_dec128 (a := arg) (by omega)
      simpa only [hd, show ∀ u, u ≤ arg.value - 1 ↔ u < arg.value by omega] using hn
  case gt =>
    split_ifs with h
    case pos => intro u _; have := u.value_lt; rw [h, value_ones]; omega
    case neg =>
      rw [value_ones] at h
      have hn := above_narrows (a := a) (v := arg.inc128)
      have hi := value_inc128 (a := arg) (by have := arg.value_lt; omega)
      simpa only [hi, Nat.succ_le_iff] using hn
  case eq =>
    split_ifs with ho hx
    case pos => intro u hu; grind [Mem]
    case pos => intro u hu; grind [Mem]
    case neg => refine .of_iff fun u => ?_; grind [Mem]
  case neq => 
    split_ifs with ho hb hl hh hx
    case pos => exact .of_iff fun u => by grind [Mem]
    case pos => intro u hu; grind [Mem]
    case pos => 
      have := value_inc128 (a := a.lo) (by have := a.hi.value_lt; omega)
      exact .of_iff fun u => by grind [Mem]
    case pos => 
      have := value_dec128 (a := a.hi) (by have := a.hi.value_lt; omega)
      exact .of_iff fun u => by grind [Mem]
    case pos => exact ⟨fun u hu _ => hu, by simp⟩
    case neg =>
      have hn : a.excl = none := by simpa using hx
      refine .of_iff fun u => ?_
      simp only [Mem, hn, Option.mem_def, Option.some.injEq, forall_eq']
      grind

theorem exists_apply (hv : a.Mem v) (ht : test.Sat v.value arg.value) :
    ∃ a' e, a.apply test arg = some (a', e) ∧ a'.Mem v := by
  have hn := apply_narrows a arg fun h : test = .other => by subst h; exact ht
  cases ha : a.apply test arg <;> rw [ha] at hn
  case none     => exact absurd ht <| hn v hv
  case some res => exact ⟨res.1, res.2, rfl, hn.1 v hv ht⟩

theorem of_apply (h : a.apply test arg = some (a', true)) (ht : test ≠ .other) (hv : a'.Mem v) :
    a.Mem v ∧ test.Sat v.value arg.value := by
  have hn := apply_narrows a arg ht
  rw [h] at hn
  exact hn.2 rfl v hv

end PfAddr

end Prefilter
