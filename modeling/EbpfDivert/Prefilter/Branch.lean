import EbpfDivert.Prefilter.Cube

open Wd (Test Field Insn)
open Shared (IpVer Dir)

namespace Prefilter

def negateTest : Test → Test
  | .eq    => .neq
  | .neq   => .eq
  | .lt    => .geq
  | .leq   => .gt
  | .gt    => .leq
  | .geq   => .lt
  | .other => .other

-- The last alternative of the tests in `apply_bool` and `zero_test` also takes unknown codes.
def pfTest (test : Test) (cmp : Ordering) : Bool :=
  (test.holds cmp).getD cmp.isGE

def boolCmp (val : Bool) (arg : Nat) (neg : Bool) : Ordering :=
  if neg then .gt else compare val.toNat arg

-- A value that is 0 or 1: none if the test is infeasible, otherwise what is known of the value.
def applyBool (slot : Option Bool) (test : Test) (arg : Nat) (neg : Bool) : Option (Option Bool) :=
  let can0 := pfTest test (boolCmp false arg neg)
  let can1 := pfTest test (boolCmp true arg neg)
  if !can0 && !can1 then none
  else if can0 && can1 then some slot
  else if slot = some !can1 then none
  else some (some can1)

-- A test of a value that is 0 or 1: `slot` is what the cube knows of it and `k` what becomes of the
-- cube once the value is known.
def branchBool (insn : Insn) (test : Test) (c : Cube) (slot : Option Bool) (k : Bool → List Cube) :
    List Cube :=
  match applyBool slot test (insn.arg.word 0).toNat insn.neg with
  | none          => []
  | some none     => [c]
  | some (some b) => k b

-- Truth value of `0 <test> arg`.
def zeroTest (test : Test) (arg : Nat) (neg : Bool) : Bool :=
  pfTest test (if arg = 0 then .eq else if neg then .gt else .lt)

-- The argument of an order or equality test must not be negative.
def guardNeg (neg : Bool) (c : Option Cube) : List Cube :=
  if neg then [] else c.toList

-- The fields that always have a value on the packet layers.
def isPresence : Field → Bool
  | .inbound | .outbound | .loopback | .ip | .ipv6 | .tcp | .udp | .icmp | .icmpv6 | .event => true
  | _ => false

-- The event layers: no header can be absent, so a failed test is the negated test.
def pfBranchEvent (insn : Insn) (positive : Bool) (c : Cube) : List Cube :=
  let test := if positive then insn.test else negateTest insn.test
  let arg := (insn.arg.word 0).toNat
  let protoTest (proto : BitVec 8) : List Cube :=
    branchBool insn test c none fun b =>
      (c.withProto (if b then .eq else .neq) proto.toNat).toList
  match insn.field with
  | .event =>
    guardNeg insn.neg <|
      (c.event.apply test arg).map fun (r, e) => { c with event := r, exact := c.exact && e }
  | .processId =>
    guardNeg insn.neg <|
      (c.pid.apply test arg).map fun (r, e) => { c with pid := r, exact := c.exact && e }
  | .protocol   => guardNeg insn.neg (c.withProto test arg)
  | .localPort  => guardNeg insn.neg (c.withPort true test arg)
  | .remotePort => guardNeg insn.neg (c.withPort false test arg)
  | .localAddr  => guardNeg insn.neg (c.withAddr true test insn.arg)
  | .remoteAddr => guardNeg insn.neg (c.withAddr false test insn.arg)
  -- Events have no IP headers.
  | .ip | .ipv6 => if zeroTest test arg insn.neg then [c] else []
  | .tcp        => protoTest Wd.ipprotoTcp
  | .udp        => protoTest Wd.ipprotoUdp
  | _           => [c.widen]

-- The bounds of the IPv4-mapped addresses.
def lo4 : Words := .of 0 0x0000FFFF 0 0

def hi4 : Words := .of 0xFFFFFFFF 0x0000FFFF 0 0

@[simp]
theorem value_lo4 : lo4.value = 0xFFFF00000000 := by
  decide

@[simp]
theorem value_hi4 : hi4.value = 0xFFFFFFFFFFFF := by
  decide

-- The value of an IPv4 address field is `::ffff:a.b.c.d`.
def PfAddr.clampV4 (a : PfAddr) : PfAddr :=
  { a with
    lo := if Words.cmp128 a.lo lo4 = .lt then lo4 else a.lo
    hi := if Words.cmp128 a.hi hi4 = .gt then hi4 else a.hi }

section Fields

variable (insn : Insn) (test : Test) (positive : Bool) (c : Cube)

def branchDir (wantIn : Bool) : List Cube :=
  let slot := c.dir.map fun d => decide (d = if wantIn then .inbound else .outbound)
  branchBool insn test c slot fun b =>
    [{ c with dir := some (if b = wantIn then .inbound else .outbound) }]

def branchLoopback : List Cube :=
  branchBool insn test c c.loopback fun b => [{ c with loopback := some b }]

def branchVer (is4 : Bool) : List Cube :=
  let slot := c.ver.map fun v => decide (v = if is4 then .v4 else .v6)
  branchBool insn test c slot fun b => (c.setVer (if b = is4 then .v4 else .v6)).toList

-- TCP and UDP: the protocol alone decides.
def branchProto (proto : BitVec 8) : List Cube :=
  branchBool insn test c none fun b =>
    if b then (c.setProto proto).toList else (c.withProto .neq proto.toNat).toList

-- ICMP and ICMPv6: the version counts as well, so the negation is split.
def branchIcmp (ver altVer : IpVer) (proto : BitVec 8) : List Cube :=
  branchBool insn test c none fun b =>
    if b then (do (← c.setProto proto).setVer ver : Option Cube).toList
    else c.withoutIcmp ver altVer proto

-- Only equality can be expressed on the TTL.
def branchTtl : List Cube :=
  if test = .eq ∨ test = .neq then
    guardNeg insn.neg (c.withTtl test (insn.arg.word 0).toNat)
  else
    [c.widen]

def branchTcpFlag (bit : BitVec 8) : List Cube :=
  branchBool insn test c (c.tcp.get bit) fun b => [{ c with tcp := c.tcp.set bit b }]

def branchAddr (useSrc v4 : Bool) : List Cube :=
  let c' := if v4 then c.setAddr useSrc (c.addr useSrc).clampV4 else c
  guardNeg insn.neg (c'.withAddr useSrc test insn.arg)

-- The local and remote fields, for packets of one direction: local = outbound? src: dst and
-- remote = outbound? dst: src.
def branchEndpointAddr (isLocal : Bool) (d : Dir) : List Cube :=
  (c.setDir d).toList.flatMap fun alt =>
    let useSrc := decide (d = if isLocal then .outbound else .inbound)
    if !positive ∧ alt.ver = none then [alt.widen]
    else (alt.withAddr useSrc test insn.arg).toList.map fun alt' =>
      if alt.ver ≠ none then alt'
      else if test = .eq then { alt' with ver := some (if insn.arg.isMappedIpv4 then .v4 else .v6) }
      else (alt'.setAddr useSrc .full).widen

def branchEndpointPort (isLocal : Bool) (d : Dir) : List Cube :=
  (c.setDir d).toList.flatMap fun alt =>
    let useSrc := decide (d = if isLocal then .outbound else .inbound)
    (alt.withPort useSrc test (insn.arg.word 0).toNat).toList

-- Ports only exist for TCP and UDP. Other cubes are split into TCP, UDP and anything else, which is
-- widened, and the first two go through `pf_branch` once more.
def branchPort (recurse : Cube → List Cube) (isLocal : Bool) : List Cube :=
  if insn.neg then []
  else if !c.protoIs Wd.ipprotoTcp ∧ !c.protoIs Wd.ipprotoUdp then
    (c.setProto Wd.ipprotoTcp).toList.flatMap recurse ++
    (c.setProto Wd.ipprotoUdp).toList.flatMap recurse ++
    (do
      let alt ← c.withProto .neq Wd.ipprotoTcp.toNat
      let alt ← alt.withProto .neq Wd.ipprotoUdp.toNat
      some alt.widen : Option Cube).toList
  else
    branchEndpointPort insn test c isLocal .inbound ++ branchEndpointPort insn test c isLocal .outbound

def branchEndpoint (isLocal : Bool) : List Cube :=
  if insn.neg then []
  else
    branchEndpointAddr insn test positive c isLocal .inbound ++
    branchEndpointAddr insn test positive c isLocal .outbound

-- The switch of `pf_branch`, with the headers the test needs already taken into account.
def branchField (recurse : Cube → List Cube) : List Cube :=
  let arg := (insn.arg.word 0).toNat
  match insn.field with
  -- The packet layers only have `WINDIVERT_EVENT_NETWORK_PACKET`.
  | .event      => if zeroTest test arg insn.neg then [c] else []
  | .inbound    => branchDir insn test c true
  | .outbound   => branchDir insn test c false
  | .loopback   => branchLoopback insn test c
  | .ip         => branchVer insn test c true
  | .ipv6       => branchVer insn test c false
  | .tcp        => branchProto insn test c Wd.ipprotoTcp
  | .udp        => branchProto insn test c Wd.ipprotoUdp
  | .icmp       => branchIcmp insn test c .v4 .v6 Wd.ipprotoIcmp
  | .icmpv6     => branchIcmp insn test c .v6 .v4 Wd.ipprotoIcmpv6
  | .ipProtocol => guardNeg insn.neg (c.withProto test arg)
  | .ipTtl | .ipv6HopLimit => branchTtl insn test c
  | .tcpSrcPort | .udpSrcPort | .icmpType | .icmpv6Type => guardNeg insn.neg (c.withPort true test arg)
  | .tcpDstPort | .udpDstPort | .icmpCode | .icmpv6Code => guardNeg insn.neg (c.withPort false test arg)
  | .tcpFin      => branchTcpFlag insn test c 0x01
  | .tcpSyn      => branchTcpFlag insn test c 0x02
  | .tcpRst      => branchTcpFlag insn test c 0x04
  | .tcpPsh      => branchTcpFlag insn test c 0x08
  | .tcpAck      => branchTcpFlag insn test c 0x10
  | .tcpUrg      => branchTcpFlag insn test c 0x20
  | .ipSrcAddr   => branchAddr insn test c true true
  | .ipDstAddr   => branchAddr insn test c false true
  | .ipv6SrcAddr => branchAddr insn test c true false
  | .ipv6DstAddr => branchAddr insn test c false false
  | .localAddr   => branchEndpoint insn test positive c true
  | .remoteAddr  => branchEndpoint insn test positive c false
  | .localPort   => branchPort insn test c recurse true
  | .remotePort  => branchPort insn test c recurse false
  | _            => [c.widen]

end Fields

-- The cubes that one outcome of a test leaves of a cube. All of them continue at the same
-- instruction, in this order. A port test calls itself for cubes whose protocol is then known, so
-- the nesting is at most two deep.
def pfBranchFrom (eventMode : Bool) : Nat → Insn → Bool → Cube → List Cube
  | 0,        _,    _,        _ => []
  | fuel + 1, insn, positive, c =>
    let recurse := pfBranchFrom eventMode fuel insn positive
    if insn.field = .zero then
      if zeroTest insn.test (insn.arg.word 0).toNat insn.neg = positive then [c] else []
    else if eventMode then
      pfBranchEvent insn positive c
    else if positive then
      (c.requireHeader insn.field).toList.flatMap fun c =>
        branchField insn insn.test positive c recurse
    else if isPresence insn.field || c.hasHeader insn.field then
      branchField insn (negateTest insn.test) positive c recurse
    else
      -- A failed test means that the header is absent or that it exists and the value fails.
      match pfAbsent c insn.field with
      | none    => [c.widen]
      | some cs =>
        cs ++ (c.requireHeader insn.field).toList.flatMap fun c =>
          branchField insn (negateTest insn.test) positive c recurse

def pfBranch (eventMode : Bool) : Insn → Bool → Cube → List Cube :=
  pfBranchFrom eventMode 2

end Prefilter
