import EbpfDivert.Kernel.Parse

open Shared

-- How the packet programs match a packet against the rule tables.
namespace Kernel

-- The maps of a handle. The arrays have `MAX_RULES` entries; `trie4` and `trie6` are what the
-- longest prefix match of an address finds.
structure Tables where
  v4    : List (FilterRule (BitVec 32))
  v6    : List (FilterRule Bytes)
  trie4 : BitVec 32 → Option (BitVec 32)
  trie6 : Bytes → Option (BitVec 32)

def maskedEq64 (a mask ip : Bytes) : Bool :=
  a.be64 0 &&& mask.be64 0 == ip.be64 0 &&& mask.be64 0 &&
  a.be64 8 &&& mask.be64 8 == ip.be64 8 &&& mask.be64 8

-- An address condition: looked up in the trie, or compared under the mask of the rule.
def addrCond {α : Type} (eq : α → α → α → Bool) (trie : α → Option (BitVec 32))
    (mm bit : BitVec 16) (a mask ip : α) : Bool :=
  if Flags.has mm matchLpmTrie then (trie a).any (Flags.has · (bit.setWidth 32))
  else eq a mask ip

def matchesCommon (r : RuleCommon) (pkt : ParsedPacket) (direction : Dir) : Bool :=
  let clause := Flags.clause r.matchMask r.invertMask
  clause matchSrcPort (r.srcPortStart ≤ pkt.srcPort ∧ pkt.srcPort ≤ r.srcPortEnd) &&
  clause matchDstPort (r.dstPortStart ≤ pkt.dstPort ∧ pkt.dstPort ≤ r.dstPortEnd) &&
  clause matchProto (pkt.proto == r.proto) &&
  clause matchDirection (direction.code == r.direction) &&
  clause matchTtl (pkt.ttl == r.ttl) &&
  clause matchTcpFlags (pkt.tcpFlags &&& r.tcpFlagsMask == r.tcpFlags) &&
  !(Flags.has r.matchMask matchLoopback && (if pkt.isLo then 1 else 0) != r.loopback)

-- The two functions for the two families differ in the addresses only.
def matchesRule {α : Type} (eq : α → α → α → Bool) (trie : α → Option (BitVec 32)) (ver : IpVer)
    (src dst : α) (pkt : ParsedPacket) (direction : Dir) (r : FilterRule α) : Bool :=
  let clause := Flags.clause r.matchMask r.invertMask
  Flags.has r.matchMask matchEnabled && !Flags.has r.matchMask matchFalse && pkt.ver = ver &&
  clause matchSrcIp (addrCond eq trie r.matchMask matchSrcIp src r.srcMask r.srcIp) &&
  clause matchDstIp (addrCond eq trie r.matchMask matchDstIp dst r.dstMask r.dstIp) &&
  matchesCommon r.toRuleCommon pkt direction

def matchesRuleIpv4 (t : Tables) (pkt : ParsedPacket) (direction : Dir) :
    FilterRule (BitVec 32) → Bool :=
  matchesRule (fun a mask ip => a &&& mask == ip &&& mask) t.trie4 .v4 pkt.srcIp pkt.dstIp pkt
    direction

def matchesRuleIpv6 (t : Tables) (pkt : ParsedPacket) (direction : Dir) : FilterRule Bytes → Bool :=
  matchesRule maskedEq64 t.trie6 .v6 pkt.srcIp6 pkt.dstIp6 pkt direction

-- The loop over a table: the mask of the first rule that matches. An entry whose mask is zero ends
-- the table.
def scanTable {α : Type} (matchesRule : FilterRule α → Bool) :
    List (FilterRule α) → Option (BitVec 16)
  | []      => none
  | r :: rs =>
    if r.matchMask = 0 then none
    else if matchesRule r then some r.matchMask
    else scanTable matchesRule rs

def scan (t : Tables) (pkt : ParsedPacket) (direction : Dir) : Option (BitVec 16) :=
  match pkt.ver with
  | .v4 => scanTable (matchesRuleIpv4 t pkt direction) (t.v4.take maxRules)
  | .v6 => scanTable (matchesRuleIpv6 t pkt direction) (t.v6.take maxRules)

-- The mask of the first rule of a family.
def firstMask (t : Tables) (ver : IpVer) : BitVec 16 :=
  match ver with
  | .v4 => t.v4.head?.elim 0 (·.matchMask)
  | .v6 => t.v6.head?.elim 0 (·.matchMask)

-- Fragments cannot be judged by the rules. They go to user space whenever the filter can match
-- anything at all, and are not dropped before that.
def matchFragment (t : Tables) (ver : IpVer) : Option (BitVec 16) :=
  let mm := firstMask t ver
  if !Flags.has mm matchEnabled || Flags.has mm matchFalse then none else some (mm &&& ~~~matchDrop)

-- The mask of the rule that applies to a packet.
def select (t : Tables) (pkt : ParsedPacket) (direction : Dir) : Option (BitVec 16) :=
  if pkt.fragment then matchFragment t pkt.ver else scan t pkt direction

end Kernel
