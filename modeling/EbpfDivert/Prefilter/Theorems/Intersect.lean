import EbpfDivert.Primitives.Narrowing
import EbpfDivert.Prefilter.Addr
import EbpfDivert.Prefilter.Range

open Wd (Test)
open Words

-- What ranges and addresses stand for after any sequence of tests.
namespace Prefilter

-- One of the six tests with its argument.
structure Constraint (ν : Type) where
  test  : Test
  arg   : ν
  known : test ≠ .other

namespace PfRange

variable {r r' : PfRange} {max arg v : Nat} {test : Test} {e : Bool} {ts : List (Constraint Nat)}

-- Calls of `range_apply` for as long as they return 1.
def applyAll (max : Nat) : PfRange → List (Constraint Nat) → Option (PfRange × Bool) :=
  Narrowing.applyAll fun r t => r.apply t.test t.arg max

theorem WF.le_of_mem (wf : r.WF max) (hv : r.Mem v) : v ≤ max :=
  hv.2.1.trans wf.hi_le

theorem WF.lo_mem (wf : r.WF max) : r.Mem r.lo :=
  Range.lo_mem ⟨r, wf⟩

theorem WF.hi_mem (wf : r.WF max) : r.Mem r.hi :=
  Range.hi_mem ⟨r, wf⟩

-- Only one test is ever widened: an exclusion for which there is no room.
theorem apply_eq_widened (ht : test ≠ .other) (h : r.apply test arg max = some (r', false)) :
    test = .neq ∧ r.excl.length = pfMaxExcl := by
  cases test <;> simp only [apply, restrict, nonempty] at h <;> split_ifs at h <;> simp_all

-- A test fails only if no value is left. Four exclusions leave at least two.
theorem WF.apply_eq_none_iff (wf : r.WF max) (ht : test ≠ .other) :
    r.apply test arg max = none ↔ ∀ v, r.Mem v → ¬test.Sat v arg := by
  have hn := apply_narrows wf arg ht
  constructor
  case mp =>
    intro h v hv
    rw [h] at hn
    exact hn v (wf.le_of_mem hv) hv
  case mpr =>
    intro h
    cases ha : r.apply test arg max
    case none => rfl
    case some res =>
      obtain ⟨r', e⟩ := res
      rw [ha] at hn
      cases e
      case true =>
        have ⟨hv, hs⟩ := hn.2.2 rfl _ (hn.1.le_of_mem hn.1.lo_mem) hn.1.lo_mem
        exact absurd hs (h _ hv)
      case false =>
        obtain ⟨rfl, hx⟩ := apply_eq_widened ht ha
        obtain ⟨x, hx⟩ : ∃ x, x ∈ r.excl := List.exists_mem_of_length_pos (by rw [hx]; decide)
        have ⟨hl, hh⟩ := wf.inside x hx
        have h₁ := h _ wf.lo_mem
        have h₂ := h _ wf.hi_mem
        simp only [Test.Sat, not_not] at h₁ h₂
        omega

theorem sound (max : Nat) : Narrowing.Sound (WF · max) Mem
    (fun (t : Constraint Nat) v => t.test.Sat v t.arg) fun r t => r.apply t.test t.arg max where
  pres wf h := apply_wf wf h
  keeps {_ t _ _ v} wf h hv hs := by
    have hn := apply_narrows wf t.arg t.known
    rw [h] at hn
    exact hn.2.1 v (wf.le_of_mem hv) hv hs
  exact {_ t _ v} wf h hv := by
    have hn := apply_narrows wf t.arg t.known
    rw [h] at hn
    exact hn.2.2 rfl v (hn.1.le_of_mem hv) hv

end PfRange

theorem range_intersection {max : Nat} {ts : List (Constraint Nat)} {r : PfRange} {exact : Bool}
    (h : (PfRange.full max).applyAll max ts = some (r, exact)) :
    r.WF max ∧
    (∀ v ≤ max, (∀ t ∈ ts, t.test.Sat v t.arg) → r.Mem v) ∧
    (exact → ∀ v, r.Mem v ↔ v ≤ max ∧ ∀ t ∈ ts, t.test.Sat v t.arg) ∧
    ∀ t : Constraint Nat,
      r.apply t.test t.arg max = none ↔ ∀ v, r.Mem v → ¬t.test.Sat v t.arg := by
  have hf : ∀ v, (PfRange.full max).Mem v ↔ v ≤ max := fun v => Range.mem_full
  have n := (PfRange.sound max).applyAll (PfRange.WF.full max) h
  refine ⟨n.holds, fun v hv hs => ?_, fun he v => ?_, fun t => n.holds.apply_eq_none_iff t.known⟩
  · exact n.keeps ((hf v).mpr hv) hs
  · rw [← hf]
    exact ⟨n.exact he, fun ⟨hv, hs⟩ => n.keeps hv hs⟩

theorem range_intersection_ports : ∃ r, (PfRange.full 65535).applyAll 65535
    [⟨.geq, 80, nofun⟩, ⟨.neq, 80, nofun⟩] = some (r, true) ∧ r.Mem 443 ∧ ¬r.Mem 80 := by
  have h : (PfRange.full 65535).applyAll 65535 [⟨.geq, 80, nofun⟩, ⟨.neq, 80, nofun⟩] =
      some (⟨81, 65535, []⟩, true) := by decide
  have hm := (range_intersection h).2.2.1 rfl
  refine ⟨_, h, (hm _).mpr (by simp [Test.Sat]), fun hv => ?_⟩
  exact ((hm _).mp hv).right ⟨.neq, 80, nofun⟩ (by simp) rfl

namespace PfAddr

variable {a a' : PfAddr} {arg : Words} {test : Test} {e : Bool}

-- Calls of `addr_apply` for as long as they return 1.
def applyAll : PfAddr → List (Constraint Words) → Option (PfAddr × Bool) :=
  Narrowing.applyAll fun a t => a.apply t.test t.arg

def Ordered (a : PfAddr) : Prop :=
  a.lo.value ≤ a.hi.value

theorem Ordered.of_finish (h : finish a = some (a', e)) : a'.Ordered := by
  simp only [finish, cmp128_eq_gt] at h
  split_ifs at h <;> cases h <;> simp only [Ordered] <;> omega

-- An edge only moves inwards past an excluded point if the other edge is not the same point.
theorem Ordered.apply (ho : a.Ordered) (h : a.apply test arg = some (a', e)) : a'.Ordered := by
  cases test <;> simp only [PfAddr.apply, cmp128_eq_lt, cmp128_eq_gt, cmp128_eq_eq] at h
  case leq   => exact .of_finish h
  case geq   => exact .of_finish h
  case other => cases h; exact ho
  case lt =>
    split_ifs at h
    exact .of_finish h
  case gt =>
    split_ifs at h
    exact .of_finish h
  case eq =>
    split_ifs at h
    cases h
    exact le_rfl
  case neq =>
    have hlt := a.hi.value_lt
    split_ifs at h with _ hb hl hh <;> cases h <;> try exact ho
    case pos =>
      have hi := value_inc128 (a := a.lo) (by simp only [Ordered] at ho; omega)
      simp only [Ordered, hi] at ho ⊢
      omega
    case pos =>
      have hd := value_dec128 (a := a.hi) (by simp only [Ordered] at ho; omega)
      simp only [Ordered, hd] at ho ⊢
      omega

theorem sound : Narrowing.Sound Ordered Mem
    (fun (t : Constraint Words) v => t.test.Sat v.value t.arg.value)
    fun a t => a.apply t.test t.arg where
  pres ho h := ho.apply h
  keeps {a t _ _ v} _ h hv hs := by
    have hn := apply_narrows a t.arg t.known
    rw [h] at hn
    exact hn.1 v hv hs
  exact {_ t _ _} _ h hv := of_apply h t.known hv

end PfAddr

theorem addr_intersection {ts : List (Constraint Words)} {a : PfAddr} {exact : Bool}
    (h : PfAddr.full.applyAll ts = some (a, exact)) :
    a.lo.value ≤ a.hi.value ∧
    (∀ v, (∀ t ∈ ts, t.test.Sat v.value t.arg.value) → a.Mem v) ∧
    (exact → ∀ v, a.Mem v ↔ ∀ t ∈ ts, t.test.Sat v.value t.arg.value) ∧
    ∀ t : Constraint Words,
      a.apply t.test t.arg = none → ∀ v, a.Mem v → ¬t.test.Sat v.value t.arg.value := by
  have hf : PfAddr.full.Ordered := by simp [PfAddr.Ordered, PfAddr.full]
  have n := PfAddr.sound.applyAll hf h
  refine ⟨n.holds, fun v hs => n.keeps PfAddr.mem_full hs, fun he v => ?_, fun t ha => ?_⟩
  · exact ⟨fun hv => (n.exact he hv).right, n.keeps PfAddr.mem_full⟩
  · have hn := PfAddr.apply_narrows a t.arg t.known
    rwa [ha] at hn

-- The addresses from 2001:db8:: to 2001:db8::3, without the first and the third one.
def subnetTests : List (Constraint Words) :=
  [⟨.geq, .of 0 0 0 0x20010DB8, nofun⟩, ⟨.neq, .of 2 0 0 0x20010DB8, nofun⟩,
   ⟨.neq, .of 0 0 0 0x20010DB8, nofun⟩, ⟨.lt, .of 4 0 0 0x20010DB8, nofun⟩]

theorem addr_intersection_subnet : ∃ a, PfAddr.full.applyAll subnetTests = some (a, true) ∧
    a.lo.value ≤ a.hi.value ∧ (∀ v, a.Mem v ↔ ∀ t ∈ subnetTests, t.test.Sat v.value t.arg.value) ∧
    a.Mem (.of 1 0 0 0x20010DB8) ∧ ¬a.Mem (.of 2 0 0 0x20010DB8) := by
  have h : PfAddr.full.applyAll subnetTests =
      some (⟨.of 1 0 0 0x20010DB8, .of 3 0 0 0x20010DB8, some (.of 2 0 0 0x20010DB8)⟩, true) := by decide
  obtain ⟨ho, _, hm, _⟩ := addr_intersection h
  have hm := hm rfl
  refine ⟨_, h, ho, hm, (hm _).mpr (by decide), fun hv => ?_⟩
  exact (hm _).mp hv ⟨.neq, .of 2 0 0 0x20010DB8, nofun⟩ (by simp [subnetTests]) rfl

end Prefilter
