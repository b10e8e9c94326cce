import EbpfDivert.Primitives.Bytes
import EbpfDivert.Primitives.Flags

-- The tables shared between user space and the kernel programs.
namespace Shared

inductive IpVer
  | v4
  | v6
deriving DecidableEq

inductive Dir
  | inbound
  | outbound
deriving DecidableEq

def IpVer.code : IpVer → BitVec 8
  | .v4 => 4
  | .v6 => 6

def Dir.code : Dir → BitVec 8
  | .inbound  => 1
  | .outbound => 2

theorem Dir.code_inj {d d' : Dir} : d.code = d'.code ↔ d = d' := by
  cases d <;> cases d' <;> decide

def maxRules : Nat := 64

-- The largest packet that is copied to user space.
def divertMaxPacket : Nat := 65536

abbrev matchSrcIp     := Flags.bit 16 0
abbrev matchDstIp     := Flags.bit 16 1
abbrev matchSrcPort   := Flags.bit 16 2
abbrev matchDstPort   := Flags.bit 16 3
abbrev matchProto     := Flags.bit 16 4
abbrev matchDirection := Flags.bit 16 5
abbrev matchLoopback  := Flags.bit 16 6
abbrev matchFalse     := Flags.bit 16 7
abbrev matchEnabled   := Flags.bit 16 8
abbrev matchSniff     := Flags.bit 16 9
abbrev matchDrop      := Flags.bit 16 10
abbrev matchTtl       := Flags.bit 16 11
abbrev matchTcpFlags  := Flags.bit 16 12
abbrev matchLpmTrie   := Flags.bit 16 13

-- Flags of a captured packet.
abbrev pktImpostor := Flags.bit 16 0
abbrev pktLoopback := Flags.bit 16 1
abbrev pktSniffed  := Flags.bit 16 2
abbrev pktFragment := Flags.bit 16 3
abbrev pktForward  := Flags.bit 16 4

structure PktHeader where
  pktLen         : Nat
  ifindex        : BitVec 32
  direction      : Dir
  l2Len          : Nat
  capLen         : Nat
  timestamp      : BitVec 64
  ingressIfindex : BitVec 32
  gsoSize        : BitVec 16
  gsoSegs        : BitVec 16
  flags          : BitVec 16

-- A record of the ring buffer: `room` bytes follow the header, of which the first `capLen` are the
-- packet.
structure PacketBuffer where
  header : PktHeader
  data   : Bytes
  room   : Nat

abbrev cfgShutdown   := Flags.bit 32 0
abbrev cfgFragments  := Flags.bit 32 1
abbrev cfgForward    := Flags.bit 32 2
abbrev cfgFwdCheck   := Flags.bit 32 3
abbrev cfgNoInbound  := Flags.bit 32 4
abbrev cfgNoOutbound := Flags.bit 32 5
abbrev cfgSkipLo     := Flags.bit 32 6

structure DivertConfig where
  priority           : BitVec 32
  snaplen            : BitVec 32
  loopPreventionMark : BitVec 32
  loIfindex          : BitVec 32
  flags              : BitVec 32
  heartbeatNs        : BitVec 64
  heartbeatTimeoutNs : BitVec 64

-- Injection marks. The upper half says what kind of mark it is.
def loopPreventionMark : BitVec 32 := 0x4D490000

def redirectMarkMask : BitVec 32 := 0x4D4A0000

def redirectPrioMagic : BitVec 32 := 0x4D4B0000

def redirectedMark : BitVec 32 := 0x4D4C0000

-- The family-independent part of a rule.
structure RuleCommon where
  srcPortStart : BitVec 16
  srcPortEnd   : BitVec 16
  dstPortStart : BitVec 16
  dstPortEnd   : BitVec 16
  matchMask    : BitVec 16
  invertMask   : BitVec 16
  proto        : BitVec 8
  direction    : BitVec 8
  loopback     : BitVec 8
  ttl          : BitVec 8
  tcpFlags     : BitVec 8
  tcpFlagsMask : BitVec 8
deriving DecidableEq

-- `struct filter_rule` with 32-bit addresses and `struct filter_rule_ipv6` with addresses of 16
-- bytes.
structure FilterRule (α : Type) extends RuleCommon where
  srcIp   : α
  dstIp   : α
  srcMask : α
  dstMask : α
deriving DecidableEq

def RuleCommon.zero : RuleCommon where
  srcPortStart := 0
  srcPortEnd   := 0
  dstPortStart := 0
  dstPortEnd   := 0
  matchMask    := 0
  invertMask   := 0
  proto        := 0
  direction    := 0
  loopback     := 0
  ttl          := 0
  tcpFlags     := 0
  tcpFlagsMask := 0

def FilterRule.v4Zero : FilterRule (BitVec 32) where
  toRuleCommon := .zero
  srcIp   := 0
  dstIp   := 0
  srcMask := 0
  dstMask := 0

def FilterRule.v6Zero : FilterRule Bytes where
  toRuleCommon := .zero
  srcIp   := .replicate 16 0
  dstIp   := .replicate 16 0
  srcMask := .replicate 16 0
  dstMask := .replicate 16 0

def eventRulesMax : Nat := 32

-- Addresses are 16 bytes in network order, IPv4 as `::ffff:a.b.c.d`.
structure DivertEvent where
  timestamp        : BitVec 64
  endpointId       : BitVec 64
  parentEndpointId : BitVec 64
  pid              : BitVec 32
  event            : BitVec 8
  protocol         : BitVec 8
  family           : BitVec 8
  flags            : BitVec 8
  localPort        : BitVec 16
  remotePort       : BitVec 16
  localAddr        : Bytes
  remoteAddr       : Bytes

abbrev evcfgSocket   := Flags.bit 32 0
abbrev evcfgBlock    := Flags.bit 32 1
abbrev evcfgShutdown := Flags.bit 32 2

structure EventConfig where
  flags              : BitVec 32
  heartbeatNs        : BitVec 64
  heartbeatTimeoutNs : BitVec 64

abbrev evmEnabled  := Flags.bit 32 0
abbrev evmEvent    := Flags.bit 32 1
abbrev evmProto    := Flags.bit 32 2
abbrev evmFamily   := Flags.bit 32 3
abbrev evmLport    := Flags.bit 32 4
abbrev evmRport    := Flags.bit 32 5
abbrev evmLaddr    := Flags.bit 32 6
abbrev evmRaddr    := Flags.bit 32 7
abbrev evmPid      := Flags.bit 32 8
abbrev evmLoopback := Flags.bit 32 9

-- One conjunction of an exactly lowered filter of the socket layer.
structure EventRule where
  matchMask  : BitVec 32
  invertMask : BitVec 32
  pidLo      : BitVec 32
  pidHi      : BitVec 32
  eventMask  : BitVec 16
  lportLo    : BitVec 16
  lportHi    : BitVec 16
  rportLo    : BitVec 16
  rportHi    : BitVec 16
  proto      : BitVec 8
  family     : BitVec 8
  loopback   : BitVec 8
  laddr      : Bytes
  lmask      : Bytes
  raddr      : Bytes
  rmask      : Bytes
deriving DecidableEq

def EventRule.zero : EventRule where
  matchMask  := 0
  invertMask := 0
  pidLo      := 0
  pidHi      := 0
  eventMask  := 0
  lportLo    := 0
  lportHi    := 0
  rportLo    := 0
  rportHi    := 0
  proto      := 0
  family     := 0
  loopback   := 0
  laddr      := .replicate 16 0
  lmask      := .replicate 16 0
  raddr      := .replicate 16 0
  rmask      := .replicate 16 0

end Shared
