import EbpfDivert.Wd.Text.Parse

-- The language of filters: which sequences of symbols stand for which expressions.
namespace Wd.Text

def optionally (kind : Kind) (b : Bool) : List Kind :=
  if b then [kind] else []

-- All of the data has to lie within the first or the last 65535 bytes.
def InPacket (size : Nat) (neg : Bool) (idx : Nat) : Prop :=
  if neg then size ≤ idx ∧ idx ≤ 0xFFFF else idx + size ≤ 0xFFFF

inductive IsVar : List Kind → Var → Prop
  | true : IsVar [.true] .true
  | false : IsVar [.false] .false
  | field {f : Field} : isArray f = false → IsVar [.field f] (makeVar f)
  | data {f : Field} {n : Words} (neg bytes : Bool) :
    isArray f → n.value ≤ mtuMax → InPacket (dataSize f) neg (indexOf (dataSize f) bytes n) →
    IsVar
      (.field f :: .squareOpen ::
        (optionally .minus neg ++ .number n :: (optionally .bytes bytes ++ [.squareClose])))
      (makeArrayVar f (signed neg (indexOf (dataSize f) bytes n)))

-- A test without a comparison asks for a value other than zero.
inductive IsTest : List Kind → TestExpr → Prop
  | bare {s : List Kind} {v : Var} (nots : Nat) :
    IsVar s v → IsTest (List.replicate nots .not ++ s) ⟨if nots % 2 = 1 then .eq else .neq, v, makeZero⟩
  | compare {s : List Kind} {v : Var} {op : Kind} {t : Test} {n : Words} (nots : Nat) (neg : Bool) :
    IsVar s v → op.test = some t →
    IsTest (List.replicate nots .not ++ (s ++ op :: (optionally .minus neg ++ [.number n])))
      ⟨if nots % 2 = 1 then negate t else t, v, ⟨neg, n⟩⟩

inductive Category
  | arg
  | conjunction
  | filter

-- `and` binds more closely than `or`, and associates to the left while `or` associates to the right.
inductive Derives : Category → List Kind → Expr → Prop
  | test {s t} : IsTest s t → Derives .arg s (.test t)
  | paren {s e} : Derives .filter s e → Derives .arg (.roundOpen :: (s ++ [.roundClose])) e
  | question {s₁ s₂ s₃ c th el} :
    Derives .filter s₁ c → Derives .filter s₂ th → Derives .filter s₃ el →
    Derives .arg (.roundOpen :: (s₁ ++ .question :: (s₂ ++ .colon :: (s₃ ++ [.roundClose]))))
      (.question c th el)
  | single {s e} : Derives .arg s e → Derives .conjunction s e
  | and {s₁ s₂ a b} :
    Derives .conjunction s₁ a → Derives .arg s₂ b → Derives .conjunction (s₁ ++ .and :: s₂) (.and a b)
  | conjunction {s e} : Derives .conjunction s e → Derives .filter s e
  | or {s₁ s₂ a b} :
    Derives .conjunction s₁ a → Derives .filter s₂ b → Derives .filter (s₁ ++ .or :: s₂) (.or a b)

-- A bound of how deep the parser goes.
def nesting (s : List Kind) : Nat :=
  3 * s.count .roundOpen + s.count .or

end Wd.Text
