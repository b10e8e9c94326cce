import EbpfDivert.Wd.Text.Expr

-- From expressions to compiled filters.
namespace Wd.Text

section Simplify

-- What the values of a variable lie between. `eq` marks the variables with only one value. `type`
-- is what a test of the variable is replaced by when it is decided here.
structure Bounds where
  type : Var
  eq   : Bool
  lb   : Number
  ub   : Words

def presence : Header → Field
  | .ip     => .ip
  | .ipv6   => .ipv6
  | .icmp   => .icmp
  | .icmpv6 => .icmpv6
  | .tcp    => .tcp
  | .udp    => .udp

def layerMax : Nat := 4

def eventMax : Nat := 9

def priorityMax : Nat := 30000

def mtuMax : Nat := 40 + 0xFFFF

def ipHdrSize : Nat := 20

-- The upper bound of the fields whose lower bound is zero and whose values have 32 bits at most.
def narrowBound : Field → Option Nat
  | .zero => some 0
  | .layer => some layerMax
  | .event => some eventMax
  | .ipDf | .ipMf | .tcpUrg | .tcpAck | .tcpPsh | .tcpRst | .tcpSyn | .tcpFin
  | .inbound | .outbound | .fragment | .ip | .ipv6 | .icmp | .icmpv6 | .tcp | .udp => some 1
  | .ipHdrLength | .tcpHdrLength => some 0x0F
  | .ipTtl | .ipProtocol | .ipv6TrafficClass | .ipv6NextHdr | .ipv6HopLimit | .icmpType | .icmpCode
  | .icmpv6Type | .icmpv6Code | .tcpPayload | .udpPayload | .protocol | .packet
  | .random8 => some 0xFF
  | .ipFragOff => some 0x1FFF
  | .ipTos | .ipLength | .ipId | .ipChecksum | .ipv6Length | .icmpChecksum | .icmpv6Checksum
  | .tcpSrcPort | .tcpDstPort | .tcpWindow | .tcpChecksum | .tcpUrgPtr | .tcpPayloadLength
  | .tcpPayload16 | .udpSrcPort | .udpDstPort | .udpLength | .udpChecksum | .udpPayloadLength
  | .udpPayload16 | .localPort | .remotePort | .packet16 | .random16 => some 0xFFFF
  | .ipv6FlowLabel => some 0x000FFFFF
  | .tcpPayload32 | .udpPayload32 | .ifIdx | .subIfIdx | .random32 | .processId => some 0xFFFFFFFF
  | _ => none

-- The bounds of a field, the lower one first. The upper one is never negative.
def fieldRange (f : Field) : Option (Number × Words) :=
  match f with
  | .priority =>
    some (⟨true, .ofNarrow (.ofNat 32 priorityMax)⟩, .ofNarrow (.ofNat 32 priorityMax))
  | .length => some (⟨false, .ofNarrow (.ofNat 32 ipHdrSize)⟩, .ofNarrow (.ofNat 32 mtuMax))
  | .ipSrcAddr | .ipDstAddr => some (⟨false, .mapped 0⟩, .mapped 0xFFFFFFFF)
  | .ipv6SrcAddr | .ipv6DstAddr | .localAddr | .remoteAddr => some (⟨false, .zero⟩, .ones)
  | .timestamp => some (⟨true, .of 0 0x80000000 0 0⟩, .of 0xFFFFFFFF 0x7FFFFFFF 0 0)
  | .endpointId | .parentEndpointId => some (⟨false, .zero⟩, .of 0xFFFFFFFF 0xFFFFFFFF 0 0)
  | _ => (narrowBound f).map fun ub => (⟨false, .zero⟩, .ofNarrow (.ofNat 32 ub))

-- Where a field is read from a header, the test becomes one of that header's presence.
def bounds : Var → Option Bounds
  | .true      => some ⟨.true, true, makeOne, makeOne.val⟩
  | .false     => some ⟨.true, true, makeZero, makeZero.val⟩
  | .field f _ => (fieldRange f).map fun (lb, ub) =>
    ⟨f.header.elim .true (makeVar ∘ presence), f = .zero, lb, ub⟩

-- What the comparisons of the argument with the two bounds say about a test.
def decided (kind : Test) (eq : Bool) (lb ub : Ordering) : Option Bool :=
  match kind with
  | .eq =>
    if lb = .lt ∨ ub = .gt then some false
    else if eq ∧ lb = .eq then some true
    else none
  | .neq =>
    if lb = .lt ∨ ub = .gt then some true
    else if eq ∧ lb = .eq then some false
    else none
  | .lt  => if ub = .gt then some true else if lb ≠ .gt then some false else none
  | .leq => if ub ≠ .lt then some true else if lb = .lt then some false else none
  | .gt  => if ub ≠ .lt then some false else if lb = .lt then some true else none
  | .geq => if ub = .gt then some false else if lb ≠ .gt then some true else none
  | .other => none

-- The result of a test that holds for all values within the bounds or for none of them.
def decidedBy (b : Bounds) (t : TestExpr) : Option Bool :=
  decided t.kind b.eq (compare128 t.val.neg t.val.val b.lb.neg b.lb.val true)
    (compare128 t.val.neg t.val.val false b.ub true)

def simplifyTest (t : TestExpr) : TestExpr :=
  match bounds t.var with
  | none   => t
  | some b =>
    match decidedBy b t with
    | none        => t
    | some result => ⟨.eq, b.type, if result then makeOne else makeZero⟩

-- The result of a test whose variable is the constant, after the simplification.
def constant (t : TestExpr) : Option Bool :=
  if t.kind = .eq ∧ t.var = .true then some (t.val.val.word 0 ≠ 0) else none

end Simplify

section Flatten

-- A test with the labels it leads to.
structure Stacked where
  test : TestExpr
  succ : Nat
  fail : Nat

-- The test that was pushed last is the head of the stack, and a label is the number of tests below
-- it. A label is none where there was no room left (-1), and there is no result at all where a null
-- pointer is dereferenced.
def flattenExpr : Expr → (succ fail : Option Nat) → List Stacked → Option (Option Nat × List Stacked)
  | .null, succ, fail, stack =>
    if succ.isNone ∨ fail.isNone then some (none, stack) else none
  | .and a b, succ, fail, stack =>
    if succ.isNone ∨ fail.isNone then some (none, stack) else do
      let (succ, stack) ← flattenExpr b succ fail stack
      flattenExpr a succ fail stack
  | .or a b, succ, fail, stack =>
    if succ.isNone ∨ fail.isNone then some (none, stack) else do
      let (fail, stack) ← flattenExpr b succ fail stack
      flattenExpr a succ fail stack
  | .question c th el, succ, fail, stack =>
    if succ.isNone ∨ fail.isNone then some (none, stack) else do
      let (fail₁, stack) ← flattenExpr el succ fail stack
      let (succ₁, stack) ← flattenExpr th succ fail stack
      flattenExpr c succ₁ fail₁ stack
  | .test t, succ, fail, stack =>
    match succ, fail with
    | some succ, some fail =>
      let t := simplifyTest t
      match constant t with
      | some result => some (some (if result then succ else fail), stack)
      | none        =>
        if filterMaxLen ≤ stack.length then some (none, stack)
        else some (some stack.length, ⟨t, succ, fail⟩ :: stack)
    | _, _ => some (none, stack)

end Flatten

section Emit

def kindToField : Var → Field
  | .field f _ => f
  | _          => .other

-- The second word of the argument is the index where there is one.
def emitArg (t : TestExpr) : Words :=
  match t.var with
  | .field f idx =>
    if isArray f then .of (t.val.val.word 0) idx (t.val.val.word 2) (t.val.val.word 3) else t.val.val
  | _ => t.val.val

-- The stack is emitted from the label `offset` downwards.
def emitLabel (offset label : Nat) : Nat :=
  if label = resultAccept ∨ label = resultReject then label else offset - label

def emitTest (offset : Nat) (s : Stacked) : Insn where
  field   := kindToField s.test.var
  test    := s.test.kind
  success := emitLabel offset s.succ
  failure := emitLabel offset s.fail
  neg     := s.test.val.neg
  arg     := emitArg s.test

-- What was pushed after the label is left out.
def emitFilter (stack : List Stacked) (label : Nat) : List Insn :=
  if label = resultAccept ∨ label = resultReject then
    [{ field := .zero, test := .eq, success := label, failure := label, neg := false, arg := .zero }]
  else
    (stack.drop (stack.length - (label + 1))).map (emitTest label)

end Emit

end Wd.Text
