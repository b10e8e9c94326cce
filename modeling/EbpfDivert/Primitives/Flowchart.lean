import EbpfDivert.Primitives.DecisionGraph
import Mathlib.Logic.Basic

-- Formulas over questions, whose parts are only asked as far as they matter.
inductive Formula (ι : Type)
  | const (b : Bool)
  | ask (i : ι)
  | and (f g : Formula ι)
  | or (f g : Formula ι)
  | ite (c th el : Formula ι)
deriving DecidableEq

namespace Formula

variable {ι : Type} (answer : ι → Option Bool)

-- None where a question has no answer.
def eval : Formula ι → Option Bool
  | const b     => some b
  | ask i       => answer i
  | and f g     => f.eval.bind fun b => if b then g.eval else some false
  | or f g      => f.eval.bind fun b => if b then some true else g.eval
  | ite c th el => c.eval.bind fun b => if b then th.eval else el.eval

def questions : Formula ι → List ι
  | const _     => []
  | ask i       => [i]
  | and f g     => f.questions ++ g.questions
  | or f g      => f.questions ++ g.questions
  | ite c th el => c.questions ++ th.questions ++ el.questions

variable {answer} {answer' : ι → Option Bool} {f : Formula ι}

-- Only the answers to the questions of a formula matter.
theorem eval_congr (h : ∀ i ∈ f.questions, answer i = answer' i) : f.eval answer = f.eval answer' := by
  induction f
  case const => rfl
  case ask i => exact h i List.mem_cons_self
  case and f g ihf ihg =>
    rw [eval, eval, ihf fun i hi => h i (List.mem_append_left _ hi),
      ihg fun i hi => h i (List.mem_append_right _ hi)]
  case or f g ihf ihg =>
    rw [eval, eval, ihf fun i hi => h i (List.mem_append_left _ hi),
      ihg fun i hi => h i (List.mem_append_right _ hi)]
  case ite c th el ihc iht ihe =>
    rw [eval, eval, ihc fun i hi => h i (List.mem_append_left _ (List.mem_append_left _ hi)),
      iht fun i hi => h i (List.mem_append_left _ (List.mem_append_right _ hi)),
      ihe fun i hi => h i (List.mem_append_right _ hi)]

end Formula

-- Charts of boxes, each of which asks a formula and has a way out for either result.
namespace Flowchart

open DecisionGraph (Target)

structure Box (ι : Type) where
  formula : Formula ι
  next    : Bool → Target

end Flowchart

abbrev Flowchart (ι : Type) := Nat → Option (Flowchart.Box ι)

namespace Flowchart

open DecisionGraph (Target)

variable {ι : Type} {answer : ι → Option Bool} {c c' : Flowchart ι} {old new box : Box ι} {i n : Nat}
  {t : Target} {r : Bool} {g : Bool → Formula ι}

-- The verdict that the answers lead to.
inductive Yields (answer : ι → Option Bool) (c : Flowchart ι) : Target → Bool → Prop
  | accept : Yields answer c .accept true
  | reject : Yields answer c .reject false
  | node {n box b r} :
    (c n = some box) → (box.formula.eval answer = some b) → (Yields answer c (box.next b) r) →
    Yields answer c (.node n) r

-- A box that is there, or a verdict.
def Live (c : Flowchart ι) : Target → Prop
  | .node n => (c n).isSome
  | _       => True

-- How a way out is taken into a box: by the formula of the box it leads to, if the ways out are the
-- same, or by a constant.
inductive Absorbs (c : Flowchart ι) (new : Box ι) (t : Target) : Formula ι → Prop
  | box {m : Nat} {b : Box ι} :
    (t = .node m) → (c m = some b) → (b.next = new.next) → Absorbs c new t b.formula
  | const {b : Bool} : (new.next b = t) → Absorbs c new t (.const b)

-- What a chart in which box `i` has taken up its successors has to do with the one before.
structure Contracts (answer : ι → Option Bool) (c c' : Flowchart ι) (i : Nat) (old new : Box ι)
    (g : Bool → Formula ι) : Prop where
  before  : c i = some old
  after   : c' i = some new
  same    : ∀ {n box}, n ≠ i → c' n = some box → c n = some box
  closed  : ∀ {n box b}, c' n = some box → Live c' (box.next b)
  absorbs : ∀ b, Absorbs c new (old.next b) (g b)
  eval    : new.formula.eval answer = (old.formula.eval answer).bind fun b => (g b).eval answer

-- A chart from which boxes have been taken, and which goes on giving the verdicts it gave.
structure Keeps (c c' : Flowchart ι) : Prop where
  live   : ∀ {t}, Live c' t → Live c t
  yields : ∀ {answer t r}, Live c' t → Yields answer c t r → Yields answer c' t r

theorem Keeps.refl : Keeps c c :=
  ⟨id, fun _ h => h⟩

theorem Keeps.trans {c'' : Flowchart ι} (h₁ : Keeps c c') (h₂ : Keeps c' c'') : Keeps c c'' :=
  ⟨fun hl => h₁.live (h₂.live hl), fun hl h => h₂.yields hl (h₁.yields (h₂.live hl) h)⟩

-- Taking up successors does not change the verdicts.
theorem Yields.contract (hc : Contracts answer c c' i old new g) (h : Yields answer c t r) (hl : Live c' t) :
    Yields answer c' t r := by
  -- The boxes that have been taken up are no longer there, but what their formula leads to is.
  suffices hs : (Live c' t → Yields answer c' t r) ∧ ∀ n box, t = .node n → c n = some box →
      ∃ b, box.formula.eval answer = some b ∧ (Live c' (box.next b) → Yields answer c' (box.next b) r) from
    hs.left hl
  clear hl
  induction h
  case accept => exact ⟨fun _ => .accept, by simp⟩
  case reject => exact ⟨fun _ => .reject, by simp⟩
  case node n box b r hn hb hy ih =>
    refine ⟨fun hl => ?_, fun n' box' he hn' => ?_⟩
    case refine_2 =>
      cases he
      cases hn.symm.trans hn'
      exact ⟨b, hb, ih.left⟩
    obtain ⟨box', hbox⟩ := Option.isSome_iff_exists.mp hl
    by_cases hi : n = i
    case neg =>
      cases hn.symm.trans (hc.same hi hbox)
      exact .node hbox hb (ih.left (hc.closed hbox))
    case pos =>
      subst hi
      cases hn.symm.trans hc.before
      cases hbox.symm.trans hc.after
      have he := hc.eval
      rw [hb, Option.bind_some] at he
      have ha := hc.absorbs b
      revert he
      generalize g b = f at ha
      intro he
      cases ha
      case const v hv =>
        exact .node hbox he (hv ▸ ih.left (hv ▸ hc.closed hbox))
      case box m box'' hm hbox'' hx =>
        obtain ⟨b', hb', hy'⟩ := ih.right m box'' hm hbox''
        exact .node hbox (he.trans hb') (hx ▸ hy' (hx ▸ hc.closed hbox))

theorem keeps_of_contracts (h : ∀ answer, Contracts answer c c' i old new g) : Keeps c c' where
  live {t} hl := by
    cases t
    case node n =>
      have hc := h fun _ => none
      by_cases hi : n = i
      case pos => rw [Live, hi, hc.before]; rfl
      case neg =>
        obtain ⟨box, hn⟩ := Option.isSome_iff_exists.mp hl
        rw [Live, hc.same hi hn]
        rfl
    all_goals trivial
  yields hl hy := hy.contract (h _) hl

end Flowchart
