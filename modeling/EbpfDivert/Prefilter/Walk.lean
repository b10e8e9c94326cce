import EbpfDivert.Primitives.DecisionGraph
import EbpfDivert.Prefilter.Branch
import EbpfDivert.Wd.Execute

open Wd (Insn)

namespace Prefilter

def pfMaxStates : Nat := 65536

def pfMaxCubes : Nat := 256

structure PfCtx where
  cubes    : List Cube
  states   : Nat
  overflow : Bool

def PfCtx.init : PfCtx where
  cubes    := []
  states   := 0
  overflow := false

def pfEmit (ctx : PfCtx) (c : Cube) : PfCtx :=
  if ctx.cubes.length ≥ pfMaxCubes then { ctx with overflow := true }
  else { ctx with cubes := ctx.cubes ++ [c] }

-- `walk` is how the walk goes on at another instruction.
def pfContinue (walk : PfCtx → Nat → Cube → PfCtx) (next : Nat) (ctx : PfCtx) (c : Cube) : PfCtx :=
  if next = Wd.resultAccept then pfEmit ctx c
  else if next ≠ Wd.resultReject then walk ctx next c
  else ctx

section Walk

variable (object : List Insn) (eventMode : Bool)

-- The states count every expanded instruction, so the nesting never exceeds `PF_MAX_STATES`.
def pfWalk : Nat → PfCtx → Nat → Cube → PfCtx
  | 0,        ctx, _,  _ => { ctx with overflow := true }
  | fuel + 1, ctx, ip, c =>
    if ctx.overflow then ctx
    else match object[ip]? with
      | none      => { ctx with overflow := true }
      | some insn =>
        if ctx.states + 1 > pfMaxStates then
          { ctx with states := ctx.states + 1, overflow := true }
        else
          let go (positive : Bool) (ctx : PfCtx) : PfCtx :=
            (pfBranch eventMode insn positive c).foldl (pfContinue (pfWalk fuel) (insn.next positive)) ctx
          go false (go true { ctx with states := ctx.states + 1 })

def pfWalkAll : PfCtx :=
  if object = [] then .init else pfWalk object eventMode (pfMaxStates + 1) .init 0 .init

end Walk

end Prefilter
