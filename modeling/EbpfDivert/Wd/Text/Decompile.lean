import EbpfDivert.Primitives.Flowchart
import EbpfDivert.Wd.Text.Expr

-- From compiled filters back to expressions.
namespace Wd.Text

-- What an entry of the array `exprs` points to. The verdict of `expr` decides between the two labels,
-- and `count` is the number of labels that lead here, as far as eight bits can hold it.
structure Node where
  expr  : Formula TestExpr
  succ  : Nat
  fail  : Nat
  count : BitVec 8

-- None is a null pointer, or one that has not been written yet.
abbrev Exprs := List (Option Node)

namespace Exprs

variable (exprs : Exprs)

-- A null pointer must not be dereferenced, and neither must what lies behind the array.
def node (i : Nat) : Option Node :=
  exprs[i]?.join

end Exprs

def isVerdict (label : Nat) : Bool :=
  label = resultAccept ∨ label = resultReject

section Pool

def exprSize : Nat := 32

-- `HeapAlloc` for some expressions, which are all that is taken from the pool once the filter has been
-- compiled. There is no result where the room that is left in the pool is not enough.
def alloc (n room : Nat) : Option Nat :=
  if n * exprSize ≤ room then some (room - n * exprSize) else none

end Pool

section Decompile

-- The sign of a number that is compared with data of the packet is lost.
def decompileTest (insn : Insn) : Option Node :=
  if insn.field = .other ∨ insn.test = .other then none
  else if isArray insn.field then
    some ⟨.ask ⟨insn.test, .field insn.field (insn.arg.word 1), ⟨false, .ofNarrow (insn.arg.word 0)⟩⟩,
      insn.success, insn.failure, 0⟩
  else
    some ⟨.ask ⟨insn.test, makeVar insn.field, ⟨insn.neg, insn.arg⟩⟩, insn.success, insn.failure, 0⟩

-- There is one more label that leads to a test.
def refer (exprs : Exprs) (label : Nat) : Option Exprs :=
  if isVerdict label then some exprs
  else (exprs.node label).map fun n => exprs.set label (some { n with count := n.count + 1 })

-- The number of expressions that a test is made of: packet data has one for its index.
def testExprs (insn : Insn) : Nat :=
  if isArray insn.field then 3 else 2

-- The outer result is none where the behaviour is not defined, the inner one where the filter cannot
-- be formatted. The tests are decompiled from the last one to the first.
def decompileFrom (object : List Insn) : (i room : Nat) → Exprs → Option (Option (Exprs × Nat))
  | 0,     room, exprs => some (some (exprs, room))
  | i + 1, room, exprs =>
    match object[i]?.bind fun insn => (decompileTest insn).bind fun n =>
        (alloc (testExprs insn) room).map (n, ·) with
    | none           => some none
    | some (n, room) => do
      let exprs ← refer (exprs.set i (some n)) n.succ
      let exprs ← refer exprs n.fail
      decompileFrom object i room exprs

end Decompile

section Coalesce

-- Nodes that nothing leads to any more are forgotten.
def derefExpr (exprs : Exprs) (label : Nat) : Option Exprs :=
  if isVerdict label then some exprs
  else (exprs.node label).map fun n =>
    exprs.set label (if n.count - 1 = 0 then none else some { n with count := n.count - 1 })

-- The node that a label leads to, if it is the only one that does.
def single (exprs : Exprs) (label : Nat) : Option (Option Node) :=
  if isVerdict label then some none
  else (exprs.node label).map fun n => if n.count = 1 then some n else none

-- A node that has taken up others, and the labels that are not needed any more.
structure Merge where
  expr    : Node
  dropped : List Nat

-- The patterns in which the node that `succ` leads to can be taken up.
def mergeSucc (expr next : Node) : Option Merge :=
  if next.fail = expr.fail then
    some ⟨{ next with expr := .and expr.expr next.expr, count := expr.count }, [expr.succ, expr.fail]⟩
  else if next.succ = expr.fail then
    some ⟨{ next with expr := .ite expr.expr next.expr (.const true), count := expr.count },
      [expr.succ, expr.fail]⟩
  else
    none

-- The same for `fail`.
def mergeFail (expr next : Node) : Option Merge :=
  if next.succ = expr.succ then
    some ⟨{ next with expr := .or expr.expr next.expr, count := expr.count }, [expr.fail, expr.succ]⟩
  else if next.fail = expr.succ then
    some ⟨{ next with expr := .ite expr.expr (.const false) next.expr, count := expr.count },
      [expr.succ, expr.fail]⟩
  else
    none

-- The pattern in which both are taken up.
def mergeBoth (expr succ fail : Node) : Option Merge :=
  if succ.succ = fail.succ ∧ succ.fail = fail.fail then
    some ⟨⟨.ite expr.expr succ.expr fail.expr, succ.succ, fail.fail, expr.count⟩,
      [expr.succ, expr.fail, succ.succ, fail.fail]⟩
  else
    none

-- The first pattern that `expr` fits in. The outer result is none where a null pointer is
-- dereferenced.
def findMerge (exprs : Exprs) (expr : Node) : Option (Option Merge) := do
  let succ ← single exprs expr.succ
  match succ.bind (mergeSucc expr) with
  | some m => some (some m)
  | none   =>
    let fail ← single exprs expr.fail
    match fail.bind (mergeFail expr) with
    | some m => some (some m)
    | none   => some (succ.bind fun s => fail.bind (mergeBoth expr s))

-- Every round takes up a node, so that the number of nodes is enough fuel. The node is a null pointer
-- if the pool is exhausted, but what has been forgotten up to then stays so.
def coalesceFrom : (fuel room : Nat) → Exprs → Node → Option (Option Node × Exprs × Nat)
  | 0,        _,    _,     _    => none
  | fuel + 1, room, exprs, expr => do
    match ← findMerge exprs expr with
    | none   => some (some expr, exprs, room)
    | some m =>
      match alloc 1 room with
      | none      => some (none, exprs, room)
      | some room =>
        let exprs ← m.dropped.foldlM derefExpr exprs
        coalesceFrom fuel room exprs m.expr

def coalesceAndOr (room : Nat) (exprs : Exprs) (i : Nat) : Option (Exprs × Nat) :=
  match exprs.node i with
  | none      => some (exprs, room)
  | some expr =>
    if expr.count = 0 then some (exprs, room)
    else (coalesceFrom (exprs.length + 1) room exprs expr).map fun
      | (none, exprs, room)      => (exprs, room)
      | (some expr, exprs, room) => (exprs.set i (some expr), room)

-- All nodes up to `i`, from the last one to the first.
def coalesceAll : (i room : Nat) → Exprs → Option (Exprs × Nat)
  | 0,     room, exprs => some (exprs, room)
  | i + 1, room, exprs => (coalesceAndOr room exprs i).bind fun (exprs, room) => coalesceAll i room exprs

def verdictExpr (label : Nat) : Option (Formula TestExpr) :=
  if label = resultAccept then some (.const true)
  else if label = resultReject then some (.const false)
  else none

-- What is left is unfolded. A label leads to a later node, so that the number of nodes is enough fuel.
def coalesceExpr (exprs : Exprs) : (fuel label room : Nat) → Option (Formula TestExpr × Nat)
  | 0,        label, room => (verdictExpr label).map (·, room)
  | fuel + 1, label, room =>
    match verdictExpr label with
    | some f => some (f, room)
    | none   => do
      let expr ← exprs.node label
      if expr.succ = expr.fail then coalesceExpr exprs fuel expr.succ room
      else
        let (succ, room) ← coalesceExpr exprs fuel expr.succ room
        let (fail, room) ← coalesceExpr exprs fuel expr.fail room
        if succ = .const true ∧ fail = .const false then some (expr.expr, room)
        else (alloc 1 room).map (.ite expr.expr succ fail, ·)

end Coalesce

-- The expression of a compiled filter, with the room that the pool has for it.
def decompileFilter (room : Nat) (object : List Insn) : Option (Option (Formula TestExpr)) := do
  match ← decompileFrom object object.length room (List.replicate object.length none) with
  | none               => some none
  | some (exprs, room) =>
    let exprs ← refer exprs 0
    let (exprs, room) ← coalesceAll object.length room exprs
    some ((coalesceExpr exprs object.length 0 room).map Prod.fst)

end Wd.Text
