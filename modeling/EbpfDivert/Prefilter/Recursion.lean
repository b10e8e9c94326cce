import EbpfDivert.Prefilter.Walk
import EbpfDivert.Primitives.CallStack

open Wd (Insn Test)

-- The functions of the lowering that call each other, without a bound on how often they do.
namespace Prefilter

inductive PfCall
  | walk (ip : Nat) (c : Cube)
  | branch (insn : Insn) (positive : Bool) (c : Cube)
  | cont (next : Nat) (c : Cube)

-- The context with the instructions that have been read, the latest first.
structure PfState where
  ctx   : PfCtx
  reads : List Nat

section Calls

variable (insn : Insn) (test : Test) (positive : Bool) (c : Cube)

-- The calls of `pf_continue` at the label of an outcome.
def contCalls (cs : List Cube) : List PfCall :=
  cs.map (.cont (insn.next positive))

-- A port test calls `pf_branch` for TCP and for UDP unless the protocol is one of them.
def portCalls (isLocal : Bool) : List PfCall :=
  if insn.neg then []
  else if !c.protoIs Wd.ipprotoTcp ∧ !c.protoIs Wd.ipprotoUdp then
    (c.setProto Wd.ipprotoTcp).toList.map (.branch insn positive) ++
    (c.setProto Wd.ipprotoUdp).toList.map (.branch insn positive) ++
    contCalls insn positive (do
      let alt ← c.withProto .neq Wd.ipprotoTcp.toNat
      let alt ← alt.withProto .neq Wd.ipprotoUdp.toNat
      some alt.widen : Option Cube).toList
  else
    contCalls insn positive <|
      branchEndpointPort insn test c isLocal .inbound ++ branchEndpointPort insn test c isLocal .outbound

def fieldCalls : List PfCall :=
  match insn.field with
  | .localPort  => portCalls insn test positive c true
  | .remotePort => portCalls insn test positive c false
  | _           => contCalls insn positive (branchField insn test positive c fun _ => [])

-- The calls that `pf_branch` makes, those of `pf_branch_event` and `pf_absent` among them. None of
-- these functions looks at what the calls before have done.
def branchCalls (eventMode : Bool) : List PfCall :=
  let field := insn.field
  if field = .zero then
    if zeroTest insn.test (insn.arg.word 0).toNat insn.neg = positive then
      contCalls insn positive [c]
    else []
  else if eventMode then
    contCalls insn positive (pfBranchEvent insn positive c)
  else if positive then
    (c.requireHeader field).toList.flatMap (fieldCalls insn insn.test positive)
  else if isPresence field || c.hasHeader field then
    fieldCalls insn (negateTest insn.test) positive c
  else
    match pfAbsent c field with
    | none    => contCalls insn positive [c.widen]
    | some cs =>
      contCalls insn positive cs ++
        (c.requireHeader field).toList.flatMap (fieldCalls insn (negateTest insn.test) positive)

end Calls

-- What a call does by itself, and the calls that it makes.
def pfBody (object : List Insn) (eventMode : Bool) : CallStack.Body PfState PfCall
  | .walk ip c, s =>
    if s.ctx.overflow then (s, [])
    else if object.length ≤ ip then ({ s with ctx := { s.ctx with overflow := true } }, [])
    else if s.ctx.states + 1 > pfMaxStates then
      ({ s with ctx := { s.ctx with states := s.ctx.states + 1, overflow := true } }, [])
    else
      let insn := object.getD ip .zero
      (⟨{ s.ctx with states := s.ctx.states + 1 }, ip :: s.reads⟩,
        [.branch insn true c, .branch insn false c])
  | .branch insn positive c, s => (s, branchCalls insn positive c eventMode)
  | .cont next c, s =>
    if next = Wd.resultAccept then ({ s with ctx := pfEmit s.ctx c }, [])
    else if next ≠ Wd.resultReject then (s, [.walk next c])
    else (s, [])

-- The lowering starts with an empty context, and does not walk if there are no instructions.
def pfStart (object : List Insn) : CallStack.Config PfState PfCall where
  state := ⟨.init, []⟩
  calls := if object = [] then [] else [.walk 0 .init]

end Prefilter
