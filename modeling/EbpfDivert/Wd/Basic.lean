import EbpfDivert.Words

-- The compiled form of a filter: an array of tests, each with a successor for success and failure.
namespace Wd

inductive Layer
  | network
  | networkForward
  | flow
  | socket
  | reflect
deriving DecidableEq

-- The codes `WINDIVERT_FILTER_FIELD_*` in their order. `other` stands for every code above
-- `WINDIVERT_FILTER_FIELD_MAX`: all of them are treated alike.
inductive Field
  | zero | inbound | outbound | ifIdx | subIfIdx
  | ip | ipv6 | icmp | tcp | udp | icmpv6
  | ipHdrLength | ipTos | ipLength | ipId | ipDf | ipMf | ipFragOff | ipTtl | ipProtocol | ipChecksum
  | ipSrcAddr | ipDstAddr
  | ipv6TrafficClass | ipv6FlowLabel | ipv6Length | ipv6NextHdr | ipv6HopLimit
  | ipv6SrcAddr | ipv6DstAddr
  | icmpType | icmpCode | icmpChecksum | icmpBody
  | icmpv6Type | icmpv6Code | icmpv6Checksum | icmpv6Body
  | tcpSrcPort | tcpDstPort | tcpSeqNum | tcpAckNum | tcpHdrLength
  | tcpUrg | tcpAck | tcpPsh | tcpRst | tcpSyn | tcpFin
  | tcpWindow | tcpChecksum | tcpUrgPtr | tcpPayloadLength
  | udpSrcPort | udpDstPort | udpLength | udpChecksum | udpPayloadLength
  | loopback | impostor | processId | localAddr | remoteAddr | localPort | remotePort | protocol
  | endpointId | parentEndpointId | layer | priority | event
  | packet | packet16 | packet32
  | tcpPayload | tcpPayload16 | tcpPayload32 | udpPayload | udpPayload16 | udpPayload32
  | length | timestamp | random8 | random16 | random32 | fragment
  | other
deriving DecidableEq

inductive Header
  | ip
  | ipv6
  | icmp
  | icmpv6
  | tcp
  | udp
deriving DecidableEq

-- The header a field is read from. The evaluator and the lowering both group the fields this way.
def Field.header : Field → Option Header
  | ipHdrLength | ipTos | ipLength | ipId | ipDf | ipMf | ipFragOff | ipTtl | ipProtocol | ipChecksum
  | ipSrcAddr | ipDstAddr => some .ip
  | ipv6TrafficClass | ipv6FlowLabel | ipv6Length | ipv6NextHdr | ipv6HopLimit | ipv6SrcAddr
  | ipv6DstAddr => some .ipv6
  | icmpType | icmpCode | icmpChecksum | icmpBody => some .icmp
  | icmpv6Type | icmpv6Code | icmpv6Checksum | icmpv6Body => some .icmpv6
  | tcpSrcPort | tcpDstPort | tcpSeqNum | tcpAckNum | tcpHdrLength | tcpUrg | tcpAck | tcpPsh | tcpRst
  | tcpSyn | tcpFin | tcpWindow | tcpChecksum | tcpUrgPtr | tcpPayload | tcpPayload16 | tcpPayload32
  | tcpPayloadLength => some .tcp
  | udpSrcPort | udpDstPort | udpLength | udpChecksum | udpPayload | udpPayload16 | udpPayload32
  | udpPayloadLength => some .udp
  | _ => none

-- `other` stands for every code above `WINDIVERT_FILTER_TEST_MAX`.
inductive Test
  | eq | neq | lt | leq | gt | geq
  | other
deriving DecidableEq

-- How a test reads the result of a comparison. An unknown test is an error.
def Test.holds : Test → Ordering → Option Bool
  | eq,    o => some o.isEq
  | neq,   o => some o.isNe
  | lt,    o => some o.isLT
  | leq,   o => some o.isLE
  | gt,    o => some o.isGT
  | geq,   o => some o.isGE
  | other, _ => none

def eventNetworkPacket   : BitVec 32 := 0
def eventFlowEstablished : BitVec 32 := 1
def eventFlowDeleted     : BitVec 32 := 2
def eventSocketBind      : BitVec 32 := 3
def eventSocketConnect   : BitVec 32 := 4
def eventSocketListen    : BitVec 32 := 5
def eventSocketAccept    : BitVec 32 := 6
def eventSocketClose     : BitVec 32 := 7
def eventReflectOpen     : BitVec 32 := 8
def eventReflectClose    : BitVec 32 := 9

def filterMaxLen : Nat := 256

def resultAccept : Nat := 0x7FFE

def resultReject : Nat := 0x7FFF

structure Insn where
  field   : Field
  test    : Test
  success : Nat
  failure : Nat
  neg     : Bool
  arg     : Words
deriving DecidableEq

-- The array of a filter is zeroed before it is filled.
def Insn.zero : Insn where
  field   := .zero
  test    := .eq
  success := 0
  failure := 0
  neg     := false
  arg     := .zero

def Insn.next (insn : Insn) (result : Bool) : Nat :=
  if result then insn.success else insn.failure

structure Filter where
  layer  : Layer
  object : List Insn
deriving DecidableEq

end Wd
