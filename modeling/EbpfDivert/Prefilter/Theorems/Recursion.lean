import EbpfDivert.Prefilter.Events
import EbpfDivert.Prefilter.Lower
import EbpfDivert.Prefilter.Recursion
import EbpfDivert.Prefilter.Theorems.Cube

open Wd (Insn Test)
open CallStack (Does Returns)

-- The lowering comes to an end for every object, and keeps its bounds until then.
namespace Prefilter

section Calls

variable {insn : Insn} {test : Test} {positive em isLocal : Bool} {c : Cube} {cs : List Cube} {n : Nat}
variable {k : PfCall}

-- The cubes that go on from a call that a branch makes.
def PfCall.cubes (em : Bool) (n : Nat) : PfCall → List Cube
  | .cont _ c               => [c]
  | .branch insn positive c => pfBranchFrom em n insn positive c
  | .walk ..                => []

theorem cubes_contCalls : (contCalls insn positive cs).flatMap (PfCall.cubes em n) = cs := by
  simp [contCalls, List.flatMap_map, PfCall.cubes]

theorem cubes_portCalls : (portCalls insn test positive c isLocal).flatMap (PfCall.cubes em n) =
    branchPort insn test c (pfBranchFrom em n insn positive) isLocal := by
  rw [portCalls, branchPort]
  split_ifs
  case pos => rfl
  case pos =>
    rw [List.flatMap_append, List.flatMap_append, cubes_contCalls, List.flatMap_map, List.flatMap_map]
    rfl
  case neg => exact cubes_contCalls

theorem cubes_fieldCalls : (fieldCalls insn test positive c).flatMap (PfCall.cubes em n) =
    branchField insn test positive c (pfBranchFrom em n insn positive) := by
  rw [fieldCalls]
  split
  case h_1 h => rw [branchField, h]; exact cubes_portCalls
  case h_2 h => rw [branchField, h]; exact cubes_portCalls
  case h_3 hl hr =>
    rw [cubes_contCalls, branchField, branchField]
    split <;> first | rfl | contradiction

theorem cubes_branchCalls : (branchCalls insn positive c em).flatMap (PfCall.cubes em n) =
    pfBranchFrom em (n + 1) insn positive c := by
  have hf {cs : List Cube} {test : Test} :
      (cs.flatMap (fieldCalls insn test positive)).flatMap (PfCall.cubes em n) =
        cs.flatMap fun c => branchField insn test positive c (pfBranchFrom em n insn positive) := by
    rw [List.flatMap_assoc]
    exact congrArg (cs.flatMap ·) (funext fun _ => cubes_fieldCalls)
  rw [branchCalls, pfBranchFrom]
  by_cases hz : insn.field = .zero
  case pos =>
    rw [if_pos hz, if_pos hz]
    split
    · exact cubes_contCalls
    · rfl
  case neg =>
    rw [if_neg hz, if_neg hz]
    split
    · exact cubes_contCalls
    split
    · exact hf
    split
    · exact cubes_fieldCalls
    cases pfAbsent c insn.field
    case none => exact cubes_contCalls
    case some cs => exact List.flatMap_append.trans (congrArg₂ _ cubes_contCalls hf)

-- The cubes that a port test does not split.
def Cube.Settled (c : Cube) : Prop :=
  c.protoIs Wd.ipprotoTcp ∨ c.protoIs Wd.ipprotoUdp

-- The calls of a branch go on at its label, or split a cube that was not settled.
inductive Splits (insn : Insn) (positive : Bool) (c : Cube) : PfCall → Prop
  | cont {c'} : Splits insn positive c (.cont (insn.next positive) c')
  | split {c'} : ¬c.Settled → c'.Settled → Splits insn positive c (.branch insn positive c')

theorem splits_contCalls (h : k ∈ contCalls insn positive cs) : Splits insn positive c k := by
  obtain ⟨c', -, rfl⟩ := List.mem_map.mp h
  exact .cont

theorem splits_portCalls (h : k ∈ portCalls insn test positive c isLocal) :
    Splits insn positive c k := by
  rw [portCalls] at h
  split_ifs at h with hn hp
  case pos => cases h
  case pos =>
    have hc : ¬c.Settled := by simpa [Cube.Settled] using hp
    rw [List.mem_append, List.mem_append] at h
    obtain (h | h) | h := h
    case inr => exact splits_contCalls h
    all_goals
      obtain ⟨c', hc', rfl⟩ := List.mem_map.mp h
      have hp' := Cube.setProto_protoIs (Option.mem_toList.mp hc')
    · exact .split hc (.inl hp')
    · exact .split hc (.inr hp')
  case neg => exact splits_contCalls h

-- There is no header that a port test requires.
theorem splits_fieldCalls {c₁ : Cube} (hc : insn.field.header = none → c₁ = c)
    (h : k ∈ fieldCalls insn test positive c₁) : Splits insn positive c k := by
  rw [fieldCalls] at h
  split at h
  case h_1 hf => exact splits_portCalls (hc (by rw [hf]; rfl) ▸ h)
  case h_2 hf => exact splits_portCalls (hc (by rw [hf]; rfl) ▸ h)
  case h_3 => exact splits_contCalls h

theorem splits_required (h : k ∈ (c.requireHeader insn.field).toList.flatMap
    (fieldCalls insn test positive)) : Splits insn positive c k := by
  obtain ⟨c₁, hc, h⟩ := List.mem_flatMap.mp h
  refine splits_fieldCalls (fun hn => ?_) h
  rw [Cube.requireHeader, hn] at hc
  exact List.mem_singleton.mp hc

theorem splits_branchCalls (h : k ∈ branchCalls insn positive c em) : Splits insn positive c k := by
  rw [branchCalls] at h
  split_ifs at h
  case pos => exact splits_contCalls h
  case neg => cases h
  case pos => exact splits_contCalls h
  case pos => exact splits_required h
  case pos => exact splits_fieldCalls (fun _ => rfl) h
  case neg =>
    split at h
    case h_1 => exact splits_contCalls h
    case h_2 =>
      obtain h | h := List.mem_append.mp h
      · exact splits_contCalls h
      · exact splits_required h

end Calls

section Runs

variable {object : List Insn} {em positive : Bool} {insn : Insn} {c : Cube} {fuel next ip : Nat}
variable {p : PfState → Prop} {walk : PfCtx → Nat → Cube → PfCtx} {ctx : PfCtx}

theorem cont_does (hw : ∀ ip c, Does (pfBody object em) p PfState.ctx [.walk ip c] (walk · ip c))
    (he : ∀ s c, p s → p { s with ctx := pfEmit s.ctx c }) :
    Does (pfBody object em) p PfState.ctx [.cont next c] (pfContinue walk next · c) := by
  intro s hs
  simp only [pfContinue]
  split_ifs with ha hr
  case pos => exact ⟨_, .done (by rw [pfBody, if_pos ha]), he s c hs, rfl⟩
  case pos =>
    obtain ⟨s', h, hs', hv⟩ := hw next c s hs
    exact ⟨s', .call (by rw [pfBody, if_neg ha, if_pos hr]; exact h), hs', hv⟩
  case neg => exact ⟨s, .done (by rw [pfBody, if_neg ha, if_neg hr]), hs, rfl⟩

-- A branch whose calls are known.
theorem branch_does_of_calls {n : Nat} (h : ∀ k ∈ branchCalls insn positive c em,
      Does (pfBody object em) p PfState.ctx [k] fun ctx =>
        (k.cubes em n).foldl (pfContinue walk (insn.next positive)) ctx) :
    Does (pfBody object em) p PfState.ctx [.branch insn positive c] fun ctx =>
      (pfBranchFrom em (n + 1) insn positive c).foldl (pfContinue walk (insn.next positive)) ctx := by
  refine .call (fun _ => rfl) ?_
  have := Does.foldl h
  rw [List.flatMap_singleton'] at this
  simpa only [← cubes_branchCalls, List.foldl_flatMap] using this

-- Cubes are split at most once.
theorem branch_does (hw : ∀ ip c, Does (pfBody object em) p PfState.ctx [.walk ip c] (walk · ip c))
    (he : ∀ s c, p s → p { s with ctx := pfEmit s.ctx c }) :
    Does (pfBody object em) p PfState.ctx [.branch insn positive c] fun ctx =>
      (pfBranch em insn positive c).foldl (pfContinue walk (insn.next positive)) ctx := by
  refine branch_does_of_calls fun k hk => ?_
  cases splits_branchCalls hk
  case cont => exact cont_does hw he
  case split c' _ hc' =>
    refine branch_does_of_calls fun k hk => ?_
    cases splits_branchCalls hk
    case cont => exact cont_does hw he
    case split hn _ => exact absurd hc' hn

theorem branches_does (insn : Insn) (c : Cube)
    (hw : ∀ ip c, Does (pfBody object em) p PfState.ctx [.walk ip c] (walk · ip c))
    (he : ∀ s c, p s → p { s with ctx := pfEmit s.ctx c }) :
    Does (pfBody object em) p PfState.ctx [.branch insn true c, .branch insn false c] fun ctx =>
      (pfBranch em insn false c).foldl (pfContinue walk (insn.next false))
        ((pfBranch em insn true c).foldl (pfContinue walk (insn.next true)) ctx) :=
  (branch_does hw he).append (branch_does hw he)

-- As much as is left of the number of states is enough fuel.
structure Ready (fuel : Nat) (ctx : PfCtx) : Prop where
  enough : pfMaxStates < fuel + ctx.states
  beyond : pfMaxStates < ctx.states → ctx.overflow

theorem Ready.emit (h : Ready fuel ctx) : Ready fuel (pfEmit ctx c) := by
  rw [pfEmit]
  split
  case isTrue => exact ⟨h.enough, fun _ => rfl⟩
  case isFalse => exact ⟨h.enough, h.beyond⟩

-- The walk with a bound does the same as the one without.
theorem walk_does : Does (pfBody object em) (fun s => Ready fuel s.ctx) PfState.ctx [.walk ip c]
    (pfWalk object em fuel · ip c) := by
  induction fuel generalizing ip c
  case zero =>
    intro s hs
    have ho : s.ctx.overflow = true := hs.beyond (by simpa using hs.enough)
    refine ⟨s, .done (by rw [pfBody, if_pos ho]), hs, ?_⟩
    simp only [pfWalk, ← ho]
  case succ fuel ih =>
    intro s hs
    by_cases ho : s.ctx.overflow
    case pos =>
      exact ⟨s, .done (by rw [pfBody, if_pos ho]), hs, by simp only [pfWalk, if_pos ho]⟩
    case neg =>
      by_cases hi : object.length ≤ ip
      case pos =>
        refine ⟨{ s with ctx := { s.ctx with overflow := true } },
          .done (by rw [pfBody, if_neg ho, if_pos hi]), ⟨hs.enough, fun _ => rfl⟩, ?_⟩
        simp only [pfWalk, if_neg ho, List.getElem?_eq_none hi]
      case neg =>
        have hg : object[ip]? = some (object.getD ip .zero) := by
          rw [List.getD_eq_getElem?_getD, List.getElem?_eq_getElem (Nat.lt_of_not_le hi)]
          rfl
        have he := hs.enough
        by_cases hn : s.ctx.states + 1 > pfMaxStates
        case pos =>
          refine ⟨{ s with ctx := { s.ctx with states := s.ctx.states + 1, overflow := true } },
            .done (by rw [pfBody, if_neg ho, if_neg hi, if_pos hn]),
            ⟨by dsimp only; omega, fun _ => rfl⟩, ?_⟩
          simp only [pfWalk, if_neg ho, hg, if_pos hn]
        case neg =>
          obtain ⟨s', hr, hs', hv⟩ := branches_does (object.getD ip .zero) c (fun _ _ => ih)
            (fun _ _ => Ready.emit) ⟨{ s.ctx with states := s.ctx.states + 1 }, ip :: s.reads⟩
            ⟨by dsimp only; omega, fun h => absurd h hn⟩
          refine ⟨s', .call (by rw [pfBody, if_neg ho, if_neg hi, if_neg hn]; exact hr),
            ⟨Nat.lt_of_lt_of_le hs'.enough (by omega), hs'.beyond⟩, hv.trans ?_⟩
          simp only [pfWalk, if_neg ho, hg, if_neg hn]

theorem start_returns : ∃ reads,
    Returns (pfBody object em) (pfStart object).calls (pfStart object).state
      ⟨pfWalkAll object em, reads⟩ := by
  rw [pfStart, pfWalkAll]
  by_cases hn : object = []
  case pos => exact ⟨[], by rw [if_pos hn, if_pos hn]; exact .nil⟩
  case neg =>
    have hw : Does (pfBody object em) (fun s => Ready (pfMaxStates + 1) s.ctx) PfState.ctx
        [.walk 0 .init] _ := walk_does
    obtain ⟨⟨ctx, reads⟩, hr, -, rfl⟩ := hw ⟨.init, []⟩ ⟨Nat.lt_succ_self _, nofun⟩
    exact ⟨reads, by rw [if_neg hn, if_neg hn]; exact hr⟩

end Runs

section Bounds

variable {object : List Insn} {em : Bool} {s : PfState}

-- What holds all the time. The number of states goes beyond the limit when it is first exceeded, but
-- then no instruction is read.
structure Bounded (object : List Insn) (s : PfState) : Prop where
  reads_le : s.reads.length ≤ pfMaxStates
  reads_eq : s.ctx.overflow = false → s.reads.length = s.ctx.states
  reads_lt : ∀ ip ∈ s.reads, ip < object.length
  cubes_le : s.ctx.cubes.length ≤ pfMaxCubes

theorem Bounded.overflow (h : Bounded object s) (states : Nat) :
    Bounded object { s with ctx := { s.ctx with states, overflow := true } } :=
  ⟨h.reads_le, nofun, h.reads_lt, h.cubes_le⟩

theorem Bounded.emit (h : Bounded object s) (c : Cube) :
    Bounded object { s with ctx := pfEmit s.ctx c } := by
  rw [pfEmit]
  split
  case isTrue => exact h.overflow s.ctx.states
  case isFalse hn =>
    refine ⟨h.reads_le, h.reads_eq, h.reads_lt, ?_⟩
    rw [List.length_append]
    exact Nat.lt_of_not_ge hn

theorem Bounded.body (k : PfCall) (h : Bounded object s) :
    Bounded object (pfBody object em k s).1 := by
  cases k
  case walk ip c =>
    rw [pfBody]
    split_ifs with ho hi hn
    case pos => exact h
    case pos => exact h.overflow s.ctx.states
    case pos => exact h.overflow _
    case neg =>
      have he := h.reads_eq (by simpa using ho)
      refine ⟨?_, fun _ => congrArg (· + 1) he, ?_, h.cubes_le⟩
      · rw [List.length_cons]; omega
      · exact List.forall_mem_cons.mpr ⟨Nat.lt_of_not_le hi, h.reads_lt⟩
  case branch => exact h
  case cont next c =>
    rw [pfBody]
    split_ifs
    case pos => exact h.emit c
    case pos => exact h
    case neg => exact h

theorem bounded_of_reaches {c : CallStack.Config PfState PfCall}
    (h : StateTransition.Reaches (CallStack.step (pfBody object em)) (pfStart object) c) :
    Bounded object c.state := by
  refine CallStack.invariant h ?_ fun k _ => .body k
  exact ⟨Nat.zero_le _, fun _ => rfl, nofun, Nat.zero_le _⟩

end Bounds

section Rules

variable {out out' : PfResult} {c : Cube} {cs : List Cube}

-- The rules fit into the tables.
def PfResult.Fits (out : PfResult) : Prop :=
  out.v4.length ≤ Shared.maxRules ∧ out.v6.length ≤ Shared.maxRules

theorem PfResult.Fits.addV4 (h : out.Fits) (ha : out.addV4 c = some out') : out'.Fits := by
  obtain ⟨_, rfl⟩ | ⟨_, hl, rfl⟩ := PfResult.addV4_cases ha
  case inl => exact h
  case inr =>
    refine ⟨?_, h.2⟩
    rw [List.length_append]
    exact Nat.lt_of_le_of_ne h.1 hl

theorem PfResult.Fits.addV6 (h : out.Fits) (ha : out.addV6 c = some out') : out'.Fits := by
  obtain ⟨_, rfl⟩ | ⟨_, hl, rfl⟩ := PfResult.addV6_cases ha
  case inl => exact h
  case inr =>
    refine ⟨h.1, ?_⟩
    rw [List.length_append]
    exact Nat.lt_of_le_of_ne h.2 hl

theorem PfResult.Fits.emitRules (h : out.Fits) (he : pfEmitRules cs out = some out') :
    out'.Fits :=
  pfEmitRules_invariant he h id Fits.addV4 Fits.addV6

theorem fits_pfLowerObject {object : List Insn} : (pfLowerObject object).Fits := by
  have ha : PfResult.matchAll.Fits := ⟨by decide, by decide⟩
  rw [pfLowerObject]
  split
  case isTrue => exact ha
  case isFalse =>
    cases he : pfEmitRules (pfWalkAll object false).cubes .empty
    case none => exact ha
    case some out => exact PfResult.Fits.emitRules ⟨Nat.zero_le _, Nat.zero_le _⟩ he

theorem length_pfLowerEvents {f : Wd.Filter} {max : Nat} : (pfLowerEvents f max).1.length ≤ max := by
  rw [pfLowerEvents]
  split_ifs with h
  case pos => exact Nat.zero_le _
  case neg =>
    rw [List.length_map]
    exact Nat.le_of_not_lt fun hl => h (.inr hl)

end Rules

-- For every object, whatever its labels are: the functions return, with the result of the walk with
-- a bound, and until then keep to the numbers of states, instructions and cubes. The rules fit into
-- the tables.
theorem lowering_bounded (object : List Insn) :
    (∀ em, (∃ reads, ⟨⟨pfWalkAll object em, reads⟩, []⟩ ∈
        StateTransition.eval (CallStack.step (pfBody object em)) (pfStart object)) ∧
      ∀ c, StateTransition.Reaches (CallStack.step (pfBody object em)) (pfStart object) c →
        c.state.reads.length ≤ pfMaxStates ∧ (∀ ip ∈ c.state.reads, ip < object.length) ∧
        c.state.ctx.cubes.length ≤ pfMaxCubes) ∧
    (∀ layer out, pfLower ⟨layer, object⟩ = some out →
      out.v4.length ≤ Shared.maxRules ∧ out.v6.length ≤ Shared.maxRules) ∧
    (∀ layer max, (pfLowerEvents ⟨layer, object⟩ max).1.length ≤ max) := by
  refine ⟨fun em => ⟨?_, fun c hc => ?_⟩, fun layer out ho => ?_, fun _ _ => length_pfLowerEvents⟩
  case _ =>
    obtain ⟨reads, hr⟩ := start_returns
    exact ⟨reads, hr.mem_eval⟩
  case _ =>
    have hb := bounded_of_reaches hc
    exact ⟨hb.reads_le, hb.reads_lt, hb.cubes_le⟩
  case _ =>
    rw [pfLower] at ho
    split at ho
    case isTrue => exact Option.some.inj ho ▸ fits_pfLowerObject
    case isFalse => cases ho

end Prefilter
