import EbpfDivert.Primitives.DecisionGraph
import EbpfDivert.Wd.Execute
import EbpfDivert.Wd.Test

namespace Wd

open DecisionGraph (Target)

def target (next : Nat) : Target :=
  if next = resultAccept then .accept
  else if next = resultReject then .reject
  else .node next

-- A compiled filter as a decision graph.
def graph (object : List Insn) : DecisionGraph Insn where
  node n        := object[n]?
  next insn b   := target (insn.next b)

-- The objects that the evaluator can run to the end: every label is a verdict or points forward.
structure Proper (object : List Insn) : Prop where
  nonempty : 0 < object.length
  le_max   : object.length ≤ filterMaxLen
  forward  : ∀ {i : Nat} {insn : Insn} {b : Bool}, object[i]? = some insn →
    insn.next b = resultAccept ∨ insn.next b = resultReject ∨
    (i < insn.next b ∧ insn.next b < object.length)

instance {object : List Insn} : Decidable (Proper object) :=
  decidable_of_iff (0 < object.length ∧ object.length ≤ filterMaxLen ∧
      ∀ i, (hi : i < object.length) → ∀ b, let next := object[i].next b
        next = resultAccept ∨ next = resultReject ∨ (i < next ∧ next < object.length)) {
    mp  := fun ⟨h₁, h₂, h₃⟩ => ⟨h₁, h₂, fun {i insn b} h => by
      have ⟨hi, he⟩ := List.getElem?_eq_some_iff.mp h
      exact he ▸ h₃ i hi b⟩
    mpr := fun ⟨h₁, h₂, h₃⟩ => ⟨h₁, h₂, fun i hi b => h₃ (List.getElem?_eq_getElem hi)⟩ }

section

variable {object : List Insn} {x : Input} {insn : Insn} {n m ttl : Nat} {b : Bool}

theorem target_eq_accept : target n = .accept ↔ n = resultAccept := by
  simp only [target]
  split_ifs <;> simp_all

theorem target_eq_node : target n = .node m ↔ n = m ∧ n ≠ resultAccept ∧ n ≠ resultReject := by
  simp only [target]
  split_ifs <;> simp_all

-- A label that is not a verdict leads to a later instruction.
theorem Proper.node_lt (p : Proper object) (hi : object[n]? = some insn)
    (h : target (insn.next b) = .node m) : n < m ∧ m < object.length := by
  have ⟨he, ha, hr⟩ := target_eq_node.mp h
  have hf := (p.forward (b := b) hi).resolve_left ha |>.resolve_left hr
  exact he ▸ hf

theorem executeFilterFrom_accepts (p : Proper object) (hn : n < object.length)
    (h : executeFilterFrom object x ttl n = some true) : (graph object).Accepts (answer x) n := by
  induction ttl generalizing n
  case zero => nomatch h
  case succ ttl ih =>
    have hi : object[n]? = some object[n] := List.getElem?_eq_getElem hn
    simp only [executeFilterFrom, List.getD_eq_getElem?_getD, hi, Option.getD_some,
      Option.bind_eq_bind, Option.bind_eq_some_iff] at h
    obtain ⟨b, hb, h⟩ := h
    split_ifs at h with ha hr
    case pos => exact .leaf hi hb (target_eq_accept.mpr ha)
    case pos => nomatch h
    case neg =>
      have ht := target_eq_node.mpr ⟨rfl, ha, hr⟩
      exact .step hi hb ht (ih (p.node_lt hi ht).right h)

theorem executeFilterFrom_of_accepts (p : Proper object) (h : (graph object).Accepts (answer x) n)
    (ht : object.length ≤ ttl + n) : executeFilterFrom object x ttl n = some true := by
  induction h generalizing ttl
  case leaf n insn b hi hb hx =>
    have hn : n < object.length := (List.getElem?_eq_some_iff.mp hi).1
    obtain ⟨ttl, rfl⟩ : ∃ k, ttl = k + 1 := ⟨ttl - 1, by omega⟩
    simp only [graph] at hi hx
    simp [executeFilterFrom, hi, hb, target_eq_accept.mp hx]
  case step n insn b m hi hb hx _ ih =>
    have hn : n < object.length := (List.getElem?_eq_some_iff.mp hi).1
    obtain ⟨ttl, rfl⟩ : ∃ k, ttl = k + 1 := ⟨ttl - 1, by omega⟩
    simp only [graph] at hi hx
    have hm := p.node_lt hi hx
    obtain ⟨rfl, ha, hr⟩ := target_eq_node.mp hx
    have hrest := @ih ttl (by omega)
    simp [executeFilterFrom, hi, hb, ha, hr, hrest]

-- On such objects the evaluator accepts exactly if the decision graph does.
theorem executeFilter_eq_true_iff (p : Proper object) :
    executeFilter object x = some true ↔ (graph object).Accepts (answer x) 0 where
  mp h  := executeFilterFrom_accepts p p.nonempty h
  mpr h := executeFilterFrom_of_accepts p h (by have := p.le_max; omega)

end

section Answer

variable {x : Input} {insn : Insn} {w : BitVec 32} {v : Words}

theorem answer_absent (hv : validateField x.layer insn.field)
    (hr : readField x insn.field insn.arg = .absent) : answer x insn = some false := by
  simp [answer, hv, hr]

theorem answer_narrow (hv : validateField x.layer insn.field)
    (hr : readField x insn.field insn.arg = .narrow w) (ht : insn.test ≠ .other) :
    answer x insn =
      some (decide (insn.test.SatSigned insn.neg w.toNat (insn.arg.word 0).toNat)) := by
  rw [← Test.holds_signed ht]
  simp only [answer, hv, hr, Reading.narrow, compare128]
  cases insn.neg <;> rfl

theorem answer_flag {f : Bool} (hv : validateField x.layer insn.field)
    (hr : readField x insn.field insn.arg = .flag f) (ht : insn.test ≠ .other) :
    answer x insn =
      some (decide (insn.test.SatSigned insn.neg f.toNat (insn.arg.word 0).toNat)) := by
  rw [answer_narrow hv hr ht]
  cases f <;> rfl

theorem answer_wide (hv : validateField x.layer insn.field)
    (hr : readField x insn.field insn.arg = .wide v) (ht : insn.test ≠ .other) :
    answer x insn = some (decide (insn.test.SatSigned insn.neg v.value insn.arg.value)) := by
  rw [← Test.holds_signed ht, ← Words.cmp128_eq_compare]
  simp only [answer, hv, hr, Reading.wide, compare128]
  cases insn.neg <;> rfl

end Answer

end Wd
