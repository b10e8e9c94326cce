import EbpfDivert.Primitives.DecisionGraph
import Mathlib.Data.List.Infix

-- Tests with two successors each, laid out from the last one to the first. A label is the number of
-- tests below the one it stands for, so that a test only leads to tests that were there before it.
-- The test that was laid out last is the head of the list.
namespace JumpCode

open DecisionGraph (Target)

structure Entry (ι : Type) where
  test : ι
  succ : Target
  fail : Target

variable {ι : Type} {answer : ι → Option Bool} {code code' : List (Entry ι)} {e : Entry ι} {t : Target}

def Entry.next (e : Entry ι) (b : Bool) : Target :=
  if b then e.succ else e.fail

-- The verdict that the answers lead to from a label, none where a test has no answer.
def run (answer : ι → Option Bool) : List (Entry ι) → Target → Option Bool
  | _,         .accept => some true
  | _,         .reject => some false
  | [],        .node _ => none
  | e :: code, .node n =>
    if n = code.length then (answer e.test).bind fun b => run answer code (e.next b)
    else run answer code (.node n)

-- The label of a test that is there, or a verdict.
def Within (code : List (Entry ι)) : Target → Prop
  | .node n => n < code.length
  | _       => True

def Closed : List (Entry ι) → Prop
  | []        => True
  | e :: code => Within code e.succ ∧ Within code e.fail ∧ Closed code

@[simp]
theorem run_accept : run answer code .accept = some true := by
  cases code <;> rfl

@[simp]
theorem run_reject : run answer code .reject = some false := by
  cases code <;> rfl

theorem run_top : run answer (e :: code) (.node code.length) =
    (answer e.test).bind fun b => run answer code (e.next b) := by
  rw [run, if_pos rfl]

-- What is laid out later does not change where a label leads.
theorem run_cons (h : Within code t) : run answer (e :: code) t = run answer code t := by
  cases t
  case node n => rw [run, if_neg (Nat.ne_of_lt h)]
  all_goals simp

theorem Within.suffix (h : Within code t) (hs : code <:+ code') : Within code' t := by
  cases t
  case node n => exact Nat.lt_of_lt_of_le h hs.length_le
  all_goals trivial

theorem run_suffix (h : Within code t) (hs : code <:+ code') :
    run answer code' t = run answer code t := by
  obtain ⟨pre, rfl⟩ := hs
  induction pre
  case nil => rfl
  case cons e pre ih => rw [List.cons_append, run_cons (h.suffix (List.suffix_append ..)), ih]

theorem Closed.next (h : Closed (e :: code)) (b : Bool) : Within code (e.next b) := by
  cases b
  case true  => exact h.1
  case false => exact h.2.1

theorem Closed.suffix (h : Closed code') (hs : code <:+ code') : Closed code := by
  obtain ⟨pre, rfl⟩ := hs
  induction pre
  case nil => exact h
  case cons ih => exact ih h.2.2

end JumpCode
