import EbpfDivert.Prefilter.Range
import EbpfDivert.Prefilter.Addr
import EbpfDivert.Wd.Packet
import EbpfDivert.Shared

open Wd (Test Field Header)
open Shared (IpVer Dir)

namespace Prefilter

-- The TCP flags a cube requires: of the flags in `mask`, exactly `flags` are set.
structure TcpBits where
  flags : BitVec 8
  mask  : BitVec 8
  sub   : flags &&& mask = flags
deriving DecidableEq

namespace TcpBits

variable {t : TcpBits} {i : Nat}

def none : TcpBits :=
  ⟨0, 0, rfl⟩

def get (t : TcpBits) (bit : BitVec 8) : Option Bool :=
  if t.mask &&& bit ≠ 0 then some (t.flags &&& bit != 0) else .none

theorem set_sub (t : TcpBits) (bit : BitVec 8) (slot : Bool) :
    ((t.flags &&& ~~~bit) ||| (if slot then bit else 0)) &&& (t.mask ||| bit) =
      (t.flags &&& ~~~bit) ||| (if slot then bit else 0) := by
  ext i hi
  have := congrArg (·.getLsbD i) t.sub
  cases slot <;> simp_all
  grind

def set (t : TcpBits) (bit : BitVec 8) (slot : Bool) : TcpBits where
  flags := (t.flags &&& ~~~bit) ||| (if slot then bit else 0)
  mask  := t.mask ||| bit
  sub   := t.set_sub bit slot

end TcpBits

structure Cube where
  exact    : Bool
  ver      : Option IpVer
  dir      : Option Dir
  loopback : Option Bool
  proto    : Range 255
  sport    : Range 65535        -- tcp/udp source port, icmp type
  dport    : Range 65535        -- tcp/udp destination port, icmp code
  ttl      : Range 255
  src      : PfAddr
  dst      : PfAddr
  tcp      : TcpBits
  event    : Range 15           -- event layers only
  pid      : Range 0xFFFFFFFF   -- event layers only
deriving DecidableEq

namespace Cube

def init : Cube where
  exact    := true
  ver      := none
  dir      := none
  loopback := none
  proto    := .full _
  sport    := .full _
  dport    := .full _
  ttl      := .full _
  src      := .full
  dst      := .full
  tcp      := .none
  event    := .full _
  pid      := .full _

def widen (c : Cube) : Cube :=
  { c with exact := false }

def setVer (c : Cube) (ver : IpVer) : Option Cube :=
  if c.ver ≠ none ∧ c.ver ≠ some ver then none else some { c with ver := some ver }

def setDir (c : Cube) (dir : Dir) : Option Cube :=
  if c.dir ≠ none ∧ c.dir ≠ some dir then none else some { c with dir := some dir }

-- Replace one component by the outcome of a test on it.
def withProto (c : Cube) (test : Test) (arg : Nat) : Option Cube :=
  (c.proto.apply test arg).map fun (r, e) => { c with proto := r, exact := c.exact && e }

def withTtl (c : Cube) (test : Test) (arg : Nat) : Option Cube :=
  (c.ttl.apply test arg).map fun (r, e) => { c with ttl := r, exact := c.exact && e }

def withPort (c : Cube) (useSrc : Bool) (test : Test) (arg : Nat) : Option Cube :=
  if useSrc then (c.sport.apply test arg).map fun (r, e) => { c with sport := r, exact := c.exact && e }
  else (c.dport.apply test arg).map fun (r, e) => { c with dport := r, exact := c.exact && e }

def addr (c : Cube) (useSrc : Bool) : PfAddr :=
  if useSrc then c.src else c.dst

def setAddr (c : Cube) (useSrc : Bool) (a : PfAddr) : Cube :=
  if useSrc then { c with src := a } else { c with dst := a }

def withAddr (c : Cube) (useSrc : Bool) (test : Test) (arg : Words) : Option Cube :=
  ((c.addr useSrc).apply test arg).map fun (a, e) =>
    { c.setAddr useSrc a with exact := c.exact && e }

-- An equality test never widens, so the flag that `cube_set_proto` drops is not lost.
def setProto (c : Cube) (proto : BitVec 8) : Option Cube :=
  (c.proto.apply .eq proto.toNat).map fun (r, _) => { c with proto := r }

def protoIs (c : Cube) (proto : BitVec 8) : Bool :=
  c.proto.data.lo = proto.toNat ∧ c.proto.data.hi = proto.toNat

end Cube

-- The fields whose header the lowering keeps track of. Both `cube_has_header` and `pf_absent` know
-- exactly these.
def trackedHeader : Field → Option Header
  | .ipTtl | .ipProtocol | .ipSrcAddr | .ipDstAddr => some .ip
  | .ipv6HopLimit | .ipv6SrcAddr | .ipv6DstAddr => some .ipv6
  | .tcpSrcPort | .tcpDstPort | .tcpSyn | .tcpAck | .tcpFin | .tcpRst | .tcpPsh | .tcpUrg => some .tcp
  | .udpSrcPort | .udpDstPort => some .udp
  | .icmpType | .icmpCode => some .icmp
  | .icmpv6Type | .icmpv6Code => some .icmpv6
  | _ => none

namespace Cube

-- Does the cube already guarantee that the header exists?
def knows (c : Cube) : Header → Bool
  | .ip     => c.ver = some .v4
  | .ipv6   => c.ver = some .v6
  | .tcp    => c.protoIs Wd.ipprotoTcp
  | .udp    => c.protoIs Wd.ipprotoUdp
  | .icmp   => c.ver = some .v4 ∧ c.protoIs Wd.ipprotoIcmp
  | .icmpv6 => c.ver = some .v6 ∧ c.protoIs Wd.ipprotoIcmpv6

def hasHeader (c : Cube) (field : Field) : Bool :=
  (trackedHeader field).any c.knows

-- Impose that the header exists.
def assume (c : Cube) : Header → Option Cube
  | .ip     => c.setVer .v4
  | .ipv6   => c.setVer .v6
  | .icmp   => do (← c.setVer .v4).setProto Wd.ipprotoIcmp
  | .icmpv6 => do (← c.setVer .v6).setProto Wd.ipprotoIcmpv6
  | .tcp    => c.setProto Wd.ipprotoTcp
  | .udp    => c.setProto Wd.ipprotoUdp

def requireHeader (c : Cube) (field : Field) : Option Cube :=
  match field.header with
  | some h => c.assume h
  | none   => some c

-- Everything but an ICMP protocol of one version: the other version, or another protocol.
def withoutIcmp (c : Cube) (ver altVer : IpVer) (proto : BitVec 8) : List Cube :=
  (c.setVer altVer).toList ++ (do (← c.setVer ver).withProto .neq proto.toNat : Option Cube).toList

-- The cubes of the packets without the header, in the order `pf_absent` continues with them.
def without (c : Cube) : Header → List Cube
  | .ip     => (c.setVer .v6).toList
  | .ipv6   => (c.setVer .v4).toList
  | .tcp    => (c.withProto .neq Wd.ipprotoTcp.toNat).toList
  | .udp    => (c.withProto .neq Wd.ipprotoUdp.toNat).toList
  | .icmp   => c.withoutIcmp .v4 .v6 Wd.ipprotoIcmp
  | .icmpv6 => c.withoutIcmp .v6 .v4 Wd.ipprotoIcmpv6

end Cube

-- None if the field has no representable header condition.
def pfAbsent (c : Cube) (field : Field) : Option (List Cube) :=
  (trackedHeader field).map c.without

end Prefilter
