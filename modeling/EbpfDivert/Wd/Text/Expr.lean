import EbpfDivert.Wd.Execute
import EbpfDivert.Wd.Serialize

-- Filter expressions (`EXPR`) and what they mean.
namespace Wd.Text

-- The left side of a test: a field, which has an index where it is data of the packet, or one of the
-- constants `true` and `false`.
inductive Var
  | field (f : Field) (idx : BitVec 32)
  | true
  | false
deriving DecidableEq

structure Number where
  neg : Bool
  val : Words
deriving DecidableEq

structure TestExpr where
  kind : Test
  var  : Var
  val  : Number
deriving DecidableEq

-- `null` is the pointer that the parser puts into a condition it could not read.
inductive Expr
  | null
  | test (t : TestExpr)
  | and (a b : Expr)
  | or (a b : Expr)
  | question (c th el : Expr)
deriving DecidableEq

def isArray (f : Field) : Bool :=
  f.argKind = .index

def makeVar (f : Field) : Var :=
  .field f 0

def makeArrayVar (f : Field) (idx : Int) : Var :=
  .field f (.ofInt 32 idx)

def makeZero : Number :=
  ⟨false, .zero⟩

def makeOne : Number :=
  ⟨false, .ofNarrow 1⟩

section Meaning

def Number.value (n : Number) : Int :=
  if n.neg then -n.val.value else n.val.value

-- The number that is read, if there is one.
def readValue : Reading → Option Int
  | .value neg _ val => some (Number.value ⟨neg, val⟩)
  | _                => none

def Var.value (x : Input) : Var → Option Int
  | .field f idx => readValue (readField x f (.of 0 idx 0 0))
  | .true        => some 1
  | .false       => some 0

-- A test of something that is not there fails.
def TestExpr.Holds (x : Input) (t : TestExpr) : Prop :=
  ∃ v, t.var.value x = some v ∧ t.kind.holds (compare v t.val.value) = some true

instance {x : Input} {t : TestExpr} : Decidable (t.Holds x) :=
  match h : t.var.value x with
  | none   => isFalse (by simp [TestExpr.Holds, h])
  | some v => decidable_of_iff (t.kind.holds (compare v t.val.value) = some true)
    (by simp [TestExpr.Holds, h])

def Expr.Holds (x : Input) : Expr → Prop
  | .null            => False
  | .test t          => t.Holds x
  | .and a b         => a.Holds x ∧ b.Holds x
  | .or a b          => a.Holds x ∨ b.Holds x
  | .question c th el => (c.Holds x ∧ th.Holds x) ∨ (¬c.Holds x ∧ el.Holds x)

end Meaning

section Evaluation

-- The tests are asked from left to right and only those that matter. None where one of them has no
-- answer.
def Expr.eval (answer : TestExpr → Option Bool) : Expr → Option Bool
  | .null            => none
  | .test t          => answer t
  | .and a b         => (a.eval answer).bind fun r => if r then b.eval answer else some false
  | .or a b          => (a.eval answer).bind fun r => if r then some true else b.eval answer
  | .question c th el => (c.eval answer).bind fun r => if r then th.eval answer else el.eval answer

-- All tests of an expression.
def Expr.tests : Expr → List TestExpr
  | .null            => []
  | .test t          => [t]
  | .and a b         => a.tests ++ b.tests
  | .or a b          => a.tests ++ b.tests
  | .question c th el => c.tests ++ th.tests ++ el.tests

-- Every part of the expression is there.
def Expr.Whole : Expr → Prop
  | .null            => False
  | .test _          => True
  | .and a b         => a.Whole ∧ b.Whole
  | .or a b          => a.Whole ∧ b.Whole
  | .question c th el => c.Whole ∧ th.Whole ∧ el.Whole

end Evaluation

end Wd.Text
