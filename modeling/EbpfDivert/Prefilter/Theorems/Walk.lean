import EbpfDivert.Prefilter.Walk
import EbpfDivert.Wd.Theorems.Execute

open Wd (Insn)

namespace Prefilter

-- Unless it overflowed, the context `ctx'` has the cubes of `ctx` and those that satisfy `p`.
def PfCtx.Extends (ctx ctx' : PfCtx) (p : Cube → Prop) : Prop :=
  ctx'.overflow = false → ctx.overflow = false ∧ ∀ d, d ∈ ctx'.cubes ↔ d ∈ ctx.cubes ∨ p d

namespace PfCtx.Extends

variable {ctx ctx₁ ctx₂ ctx' : PfCtx} {p q : Cube → Prop}

theorem refl : Extends ctx ctx fun _ => False :=
  fun h => ⟨h, by simp⟩

theorem overflow (h : ctx'.overflow = true) : Extends ctx ctx' p := by
  simp [Extends, h]

theorem trans (h₁ : Extends ctx ctx₁ p) (h₂ : Extends ctx₁ ctx₂ q) :
    Extends ctx ctx₂ fun d => p d ∨ q d := by
  intro h
  have ⟨h, hq⟩ := h₂ h
  have ⟨h, hp⟩ := h₁ h
  exact ⟨h, fun d => by rw [hq, hp, or_assoc]⟩

theorem congr (h : Extends ctx ctx' p) (hp : ∀ d, p d ↔ q d) : Extends ctx ctx' q :=
  fun ho => ⟨(h ho).left, fun d => by rw [(h ho).right, hp]⟩

theorem foldl {f : PfCtx → Cube → PfCtx} {cs : List Cube} {r : Cube → Cube → Prop}
    (h : ∀ ctx, ∀ c ∈ cs, Extends ctx (f ctx c) (r c)) :
    Extends ctx (cs.foldl f ctx) fun d => ∃ c ∈ cs, r c d := by
  induction cs generalizing ctx
  case nil => exact refl.congr (by simp)
  case cons c cs ih =>
    have hc := h ctx c (by simp)
    have hs : Extends (f ctx c) _ _ := ih fun ctx c hc => h ctx c (by simp [hc])
    exact (hc.trans hs).congr (by simp)

end PfCtx.Extends

section

variable {object : List Insn} {em : Bool} {ctx : PfCtx} {c : Cube} {ip fuel : Nat}

theorem pfEmit_extends : ctx.Extends (pfEmit ctx c) (· = c) := by
  rw [pfEmit]
  split_ifs
  case pos => exact .overflow rfl
  case neg => exact fun h => ⟨h, by simp⟩

-- Continuing at a label adds the cube itself or what it leads to.
theorem pfContinue_extends {walk : PfCtx → Nat → Cube → PfCtx} {r : Nat → Cube → Cube → Prop}
    {next : Nat} (hw : ∀ ctx ip c, PfCtx.Extends ctx (walk ctx ip c) (r ip c)) :
    ctx.Extends (pfContinue walk next ctx c) fun d =>
      (Wd.target next = .accept ∧ d = c) ∨ ∃ m, Wd.target next = .node m ∧ r m c d := by
  rw [pfContinue]
  split_ifs with ha hr
  case pos => exact pfEmit_extends.congr (by simp [Wd.target_eq_accept.mpr ha])
  case pos => exact (hw ctx next c).congr (by simp [Wd.target_eq_node.mpr ⟨rfl, ha, hr⟩])
  case neg =>
    have ht : Wd.target next = .reject := by rw [Wd.target, if_neg ha, if_pos (not_not.mp hr)]
    exact PfCtx.Extends.refl.congr (by simp [ht])

-- A walk that does not overflow collects exactly the cubes that lead to acceptance.
theorem pfWalk_extends : ctx.Extends (pfWalk object em fuel ctx ip c)
    ((Wd.graph object).Leads (pfBranch em) ip c) := by
  induction fuel generalizing ctx ip c
  case zero => exact .overflow rfl
  case succ fuel ih =>
    by_cases ho : ctx.overflow
    case pos => exact .overflow (by rw [pfWalk, if_pos ho, ho])
    case neg =>
      cases hi : object[ip]?
      case none => exact .overflow (by rw [pfWalk, if_neg ho, hi])
      case some insn =>
        by_cases hs : ctx.states + 1 > pfMaxStates
        case pos => exact .overflow (by rw [pfWalk, if_neg ho, hi]; dsimp only; rw [if_pos hs])
        case neg =>
          have step b ctx : PfCtx.Extends ctx ((pfBranch em insn b c).foldl
              (pfContinue (pfWalk object em fuel) (insn.next b)) ctx) _ :=
            .foldl fun _ _ _ => pfContinue_extends fun _ _ _ => ih
          have h : ctx.Extends _ _ :=
            (step true { ctx with states := ctx.states + 1 }).trans (step false _)
          rw [pfWalk, if_neg ho, hi]
          dsimp only
          rw [if_neg hs]
          refine h.congr fun d => ?_
          rw [DecisionGraph.leads_iff]
          simp only [Wd.graph, hi, Option.some.injEq, exists_eq_left', Bool.exists_bool]
          exact or_comm

theorem mem_pfWalkAll (ho : (pfWalkAll object em).overflow = false) :
    c ∈ (pfWalkAll object em).cubes ↔ (Wd.graph object).Leads (pfBranch em) 0 .init c := by
  by_cases hn : object = []
  case pos =>
    rw [pfWalkAll, if_pos hn, DecisionGraph.leads_iff]
    simp [hn, PfCtx.init, Wd.graph]
  case neg =>
    rw [pfWalkAll, if_neg hn] at ho ⊢
    rw [(pfWalk_extends ho).right]
    simp [PfCtx.init]

end

end Prefilter
