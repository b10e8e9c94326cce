import EbpfDivert.Wd.Text.Flatten

-- From tokens to filter expressions.
namespace Wd.Text

-- The names of values.
inductive Macro
  | network | networkForward | flow | socket | reflect
  | eventPacket | eventEstablished | eventDeleted | eventBind | eventConnect | eventListen
  | eventAccept | eventOpen | eventClose
  | true | false | tcp | udp | icmp | icmpv6
deriving DecidableEq

-- The value of a token is only looked at where the token is a number. A name of a value is a kind of
-- its own where it cannot be used on the layer.
inductive Kind
  | field (f : Field)
  | true
  | false
  | named (m : Macro)
  | roundOpen | roundClose | squareOpen | squareClose
  | minus
  | bytes
  | eq | neq | lt | leq | gt | geq
  | not | and | or
  | colon
  | question
  | number (val : Words)
  | eof
deriving DecidableEq

-- The position is none where it is never written.
structure Token where
  kind : Kind
  pos  : Option Nat
deriving DecidableEq

inductive ErrorCode
  | tooDeep
  | tooLong
  | badToken
  | badTokenForLayer
  | unexpectedToken
  | indexOob
  | badObject
deriving DecidableEq

structure Error where
  code : ErrorCode
  pos  : Option Nat
deriving DecidableEq

-- What a parser returns, and the tokens from which the caller goes on. A null pointer comes with an
-- error.
abbrev Parsed (α : Type) := Except Error α × List Token

-- The last token is an `eof`, and no parser goes on behind it.
def peek (toks : List Token) : Token :=
  toks.headD ⟨.eof, none⟩

def unexpected {α : Type} (toks : List Token) : Parsed α :=
  (.error ⟨.unexpectedToken, (peek toks).pos⟩, toks)

-- A token that may stand here or not.
def optional (kind : Kind) (toks : List Token) : Bool × List Token :=
  if (peek toks).kind = kind then (true, toks.tail) else (false, toks)

section Tests

def Kind.test : Kind → Option Test
  | .eq  => some .eq
  | .neq => some .neq
  | .lt  => some .lt
  | .leq => some .leq
  | .gt  => some .gt
  | .geq => some .geq
  | _    => none

def negate : Test → Test
  | .eq    => .neq
  | .neq   => .eq
  | .lt    => .geq
  | .leq   => .gt
  | .gt    => .leq
  | .geq   => .lt
  | .other => .other

-- How many bytes are read from the packet.
def dataSize : Field → Nat
  | .packet16 | .tcpPayload16 | .udpPayload16 => 2
  | .packet32 | .tcpPayload32 | .udpPayload32 => 4
  | _                                         => 1

-- The index of packet data, in the unit of the data or in bytes.
def indexOf (size : Nat) (bytes : Bool) (n : Words) : Nat :=
  if bytes then (n.word 0).toNat else (n.word 0).toNat * size

-- The index of a byte of the packet, from its start or, if it is negative, from its end.
def signed (neg : Bool) (idx : Nat) : Int :=
  if neg then -idx else idx

def indexOob (size : Nat) (neg : Bool) (idx : Nat) : Bool :=
  (!neg && 0xFFFF - size < idx) || (neg && 0xFFFF < idx) || (neg && idx < size)

def numberOob (n : Words) : Bool :=
  n.word 3 ≠ 0 ∨ n.word 2 ≠ 0 ∨ n.word 1 ≠ 0 ∨ mtuMax < (n.word 0).toNat

-- What follows the name of packet data.
def parseIndex (size : Nat) (toks : List Token) : Parsed Int :=
  if (peek toks).kind ≠ .squareOpen then unexpected toks else
  let (neg, toks) := optional .minus toks.tail
  match (peek toks).kind with
  | .number n =>
    if numberOob n then (.error ⟨.indexOob, (peek toks).pos⟩, toks) else
    let (bytes, toks) := optional .bytes toks.tail
    let idx := indexOf size bytes n
    if indexOob size neg idx then (.error ⟨.indexOob, (peek toks).pos⟩, toks) else
    if (peek toks).kind ≠ .squareClose then unexpected toks else
    (.ok (signed neg idx), toks.tail)
  | _ => unexpected toks

def parseVar (toks : List Token) : Parsed Var :=
  match (peek toks).kind with
  | .true    => (.ok .true, toks.tail)
  | .false   => (.ok .false, toks.tail)
  | .field f =>
    if isArray f then
      let (idx, toks) := parseIndex (dataSize f) toks.tail
      (idx.map (makeArrayVar f), toks)
    else
      (.ok (makeVar f), toks.tail)
  | _        => unexpected toks

-- Whether the number of `not` is odd.
def parseNots : (not : Bool) → List Token → Bool × List Token
  | not, []          => (not, [])
  | not, tok :: toks => if tok.kind = .not then parseNots (!not) toks else (not, tok :: toks)

def parseTest (toks : List Token) : Parsed Expr :=
  let (not, toks) := parseNots false toks
  match parseVar toks with
  | (.error e, toks) => (.error e, toks)
  | (.ok var, toks)  =>
    match (peek toks).kind.test with
    | none      => (.ok (.test ⟨if not then .eq else .neq, var, makeZero⟩), toks)
    | some test =>
      let (neg, toks) := optional .minus toks.tail
      match (peek toks).kind with
      | .number n => (.ok (.test ⟨if not then negate test else test, var, ⟨neg, n⟩⟩), toks.tail)
      | _         => unexpected toks

end Tests

section Filters

-- The operators that follow an expression. Each of them is one token at least, so that the number of
-- tokens is enough fuel.
def parseOps (andArg orArg : List Token → Parsed Expr) : (fuel : Nat) → Expr → List Token → Parsed Expr
  | 0,        expr, toks => (.ok expr, toks)
  | fuel + 1, expr, toks =>
    match (peek toks).kind with
    | .and =>
      match andArg toks.tail with
      | (.error e, toks) => (.error e, toks)
      | (.ok arg, toks)  => parseOps andArg orArg fuel (.and expr arg) toks
    | .or  =>
      match orArg toks.tail with
      | (.error e, toks) => (.error e, toks)
      | (.ok arg, toks)  => parseOps andArg orArg fuel (.or expr arg) toks
    | _    => (.ok expr, toks)

-- The branches of a condition, of which `cond` has been read. They are read even if it could not be.
def parseBranches (filter : List Token → Parsed Expr) (cond : Expr) (toks : List Token) : Parsed Expr :=
  match filter toks with
  | (.error e, toks) => (.error e, toks)
  | (.ok th, toks)   =>
    if (peek toks).kind ≠ .colon then unexpected toks else
    match filter toks.tail with
    | (.error e, toks) => (.error e, toks)
    | (.ok el, toks)   =>
      if (peek toks).kind ≠ .roundClose then unexpected toks else
      (.ok (.question cond th el), toks.tail)

def orNull : Except Error Expr → Expr
  | .error _ => .null
  | .ok expr => expr

mutual

-- `depth` is one more than in the source, so that it is zero where it is negative there.
def parseAndOrArg : (depth : Nat) → List Token → Parsed Expr
  | 0,         toks => (.error ⟨.tooDeep, (peek toks).pos⟩, toks)
  | depth + 1, toks =>
    match (peek toks).kind with
    | .roundOpen =>
      let (arg, toks) := parseFilter depth false toks.tail
      match (peek toks).kind with
      | .roundClose => (arg, toks.tail)
      | .question   => parseBranches (parseFilter depth false) (orNull arg) toks.tail
      | _           => unexpected toks
    | _ => parseTest toks

def parseFilter : (depth : Nat) → (and : Bool) → List Token → Parsed Expr
  | 0,         _,   toks => (.error ⟨.tooDeep, (peek toks).pos⟩, toks)
  | depth + 1, and, toks =>
    match if and then parseAndOrArg depth toks else parseFilter depth true toks with
    | (.error e, toks) => (.error e, toks)
    | (.ok expr, toks) =>
      parseOps (parseAndOrArg depth) (parseFilter depth true) toks.length expr toks

end

def maxDepth : Nat := 1024

-- The expression that the tokens up to the last one stand for.
def parse (toks : List Token) : Except Error Expr :=
  match parseFilter (maxDepth + 1) false toks with
  | (.error e, _)    => .error e
  | (.ok expr, toks) =>
    if (peek toks).kind ≠ .eof then .error ⟨.unexpectedToken, (peek toks).pos⟩ else .ok expr

end Filters

end Wd.Text
