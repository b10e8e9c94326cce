import EbpfDivert.Wd.Packet

-- The evaluator of compiled filters (`WinDivertExecuteFilter`).
namespace Wd

structure DataNetwork where
  ifIdx    : BitVec 32
  subIfIdx : BitVec 32

structure DataFlow where
  endpointId       : BitVec 64
  parentEndpointId : BitVec 64
  processId        : BitVec 32
  localAddr        : Words
  remoteAddr       : Words
  localPort        : BitVec 16
  remotePort       : BitVec 16
  protocol         : BitVec 8

-- The two structures have the same members.
abbrev DataSocket := DataFlow

structure DataReflect where
  timestamp : Int
  processId : BitVec 32
  layer     : Layer
  flags     : BitVec 64
  priority  : Int

-- What the evaluator is called with besides the filter. The data of a layer is only read on that
-- layer, where the caller provides it. `hash` is the hash of timestamp and headers that the
-- `random` fields are taken from.
structure Input where
  layer        : Layer
  timestamp    : Int
  event        : BitVec 32
  ipv4         : Bool
  outbound     : Bool
  loopback     : Bool
  impostor     : Bool
  fragment     : Bool
  networkData  : DataNetwork
  flowData     : DataFlow
  socketData   : DataSocket
  reflectData  : DataReflect
  ipHeader     : Option IpHdr
  ipv6Header   : Option Ipv6Hdr
  icmpHeader   : Option IcmpHdr
  icmpv6Header : Option IcmpHdr
  tcpHeader    : Option TcpHdr
  udpHeader    : Option UdpHdr
  protocol     : BitVec 8
  packet       : Bytes
  headerLen    : Nat
  payloadLen   : Nat
  hash         : BitVec 64

def Input.hasHeader (x : Input) : Header → Bool
  | .ip     => x.ipHeader.isSome
  | .ipv6   => x.ipv6Header.isSome
  | .icmp   => x.icmpHeader.isSome
  | .icmpv6 => x.icmpv6Header.isSome
  | .tcp    => x.tcpHeader.isSome
  | .udp    => x.udpHeader.isSome

def validateField (layer : Layer) : Field → Bool
  | .zero | .event | .timestamp => true
  | .inbound | .outbound | .loopback | .localAddr | .remoteAddr | .localPort | .remotePort
  | .protocol => layer ∈ [.network, .flow, .socket]
  | .ip | .ipv6 | .icmp | .tcp | .udp | .icmpv6 =>
    layer ∈ [.network, .networkForward, .flow, .socket]
  | .processId => layer ∈ [.flow, .socket, .reflect]
  | .endpointId | .parentEndpointId => layer ∈ [.flow, .socket]
  | .layer | .priority => layer ∈ [.reflect]
  | .other => false
  | _ => layer ∈ [.network, .networkForward]

-- Only the lowest word counts unless the value is a `big` one.
def compare128 (negA : Bool) (a : Words) (negB : Bool) (b : Words) (big : Bool) : Ordering :=
  if negA && !negB then .lt
  else if !negA && negB then .gt
  else
    let o := if big then Limbs.cmp a.limbs b.limbs else compare (a.word 0).toNat (b.word 0).toNat
    if negA then o.swap else o

-- A negative index counts from the end.
def getData (packet : Bytes) (min max idx : Int) (size : Nat) : Option Bytes :=
  let idx := idx + if idx < 0 then max else min
  if idx < min ∨ idx > max - size then none else some ((packet.drop idx.toNat).take size)

inductive Reading
  | error
  | absent
  | value (neg big : Bool) (val : Words)

namespace Reading

def narrow (w : BitVec 32) : Reading :=
  .value false false (.ofNarrow w)

def flag (b : Bool) : Reading :=
  .narrow (if b then 1 else 0)

def wide (v : Words) : Reading :=
  .value false true v

def wide64 (neg : Bool) (v : BitVec 64) : Reading :=
  .value neg true (.of (v.setWidth 32) ((v >>> 32).setWidth 32) 0 0)

-- Data of one, two or four bytes in network order.
def data (packet : Bytes) (min max : Nat) (arg : Words) (size : Nat) : Reading :=
  match getData packet min max (arg.word 1).toInt size with
  | none   => .absent
  | some b => .narrow (if size = 1 then (b.byte 0).setWidth 32 else
      if size = 2 then (b.be16 0).setWidth 32 else b.be32 0)

-- A field of a header that may be missing.
def ofHeader {α : Type} (hdr : Option α) (f : α → Reading) : Reading :=
  hdr.elim .absent f

end Reading

-- Local is the source of outbound and the destination of inbound packets, remote the other way
-- round: `useSrc` says which of the two is asked for.
def Input.endpointAddr (x : Input) (useSrc : Bool) : Words :=
  match x.ipHeader, x.ipv6Header with
  | some h, _      => .mapped (if useSrc then h.srcAddr else h.dstAddr)
  | none,   some h => if useSrc then h.srcAddr else h.dstAddr
  | none,   none   => .zero

def Input.endpointPort (x : Input) (useSrc : Bool) : BitVec 32 :=
  match x.tcpHeader, x.udpHeader, x.icmpHeader, x.icmpv6Header with
  | some h, _,      _,      _      => (if useSrc then h.srcPort else h.dstPort).setWidth 32
  | none,   some h, _,      _      => (if useSrc then h.srcPort else h.dstPort).setWidth 32
  | none,   none,   some h, _      => if useSrc then h.type.setWidth 32 else 0
  | none,   none,   none,   some h => if useSrc then h.type.setWidth 32 else 0
  | none,   none,   none,   none   => 0

-- A field that the event layers take from their own data and the packet layers from the packet.
-- On the forward layer only the presence of a header can be asked for.
def Input.layered (x : Input) (network forward : Reading) (event : DataFlow → Reading) : Reading :=
  match x.layer with
  | .network        => network
  | .networkForward => forward
  | .flow           => event x.flowData
  | .socket         => event x.socketData
  | .reflect        => .error

def readField (x : Input) (field : Field) (arg : Words) : Reading :=
  let random64 := x.hash ||| 0xFF00000000000000
  let payload size := Reading.data x.packet x.headerLen (x.headerLen + x.payloadLen) arg size
  match field with
  | .zero      => .narrow 0
  | .event     => .narrow x.event
  | .length    => .narrow (.ofNat 32 x.packet.length)
  | .timestamp => .wide64 (x.timestamp < 0) (.ofNat 64 x.timestamp.natAbs)
  | .random8   => .narrow ((random64 >>> 48).setWidth 32 &&& 0xFF)
  | .random16  => .narrow ((random64 >>> 32).setWidth 32 &&& 0xFFFF)
  | .random32  => .narrow (random64.setWidth 32)
  | .packet    => .data x.packet 0 x.packet.length arg 1
  | .packet16  => .data x.packet 0 x.packet.length arg 2
  | .packet32  => .data x.packet 0 x.packet.length arg 4
  | .tcpPayload   => .ofHeader x.tcpHeader fun _ => payload 1
  | .tcpPayload16 => .ofHeader x.tcpHeader fun _ => payload 2
  | .tcpPayload32 => .ofHeader x.tcpHeader fun _ => payload 4
  | .udpPayload   => .ofHeader x.udpHeader fun _ => payload 1
  | .udpPayload16 => .ofHeader x.udpHeader fun _ => payload 2
  | .udpPayload32 => .ofHeader x.udpHeader fun _ => payload 4
  | .inbound   => .flag !x.outbound
  | .outbound  => .flag x.outbound
  | .fragment  => .flag x.fragment
  | .ifIdx     => .narrow x.networkData.ifIdx
  | .subIfIdx  => .narrow x.networkData.subIfIdx
  | .loopback  => .flag x.loopback
  | .impostor  => .flag x.impostor
  | .ip        => .flag x.ipHeader.isSome
  | .ipv6      => .flag x.ipv6Header.isSome
  | .icmp      =>
    x.layered (.flag x.icmpHeader.isSome) (.flag x.icmpHeader.isSome) fun d =>
      .flag (x.ipv4 && d.protocol == ipprotoIcmp)
  | .icmpv6    =>
    x.layered (.flag x.icmpv6Header.isSome) (.flag x.icmpv6Header.isSome) fun d =>
      .flag (!x.ipv4 && d.protocol == ipprotoIcmpv6)
  | .tcp       =>
    x.layered (.flag x.tcpHeader.isSome) (.flag x.tcpHeader.isSome) fun d =>
      .flag (d.protocol == ipprotoTcp)
  | .udp       =>
    x.layered (.flag x.udpHeader.isSome) (.flag x.udpHeader.isSome) fun d =>
      .flag (d.protocol == ipprotoUdp)
  | .ipHdrLength => .ofHeader x.ipHeader fun h => .narrow (h.hdrLength.setWidth 32)
  | .ipTos       => .ofHeader x.ipHeader fun h => .narrow (h.tos.setWidth 32)
  | .ipLength    => .ofHeader x.ipHeader fun h => .narrow (h.length.setWidth 32)
  | .ipId        => .ofHeader x.ipHeader fun h => .narrow (h.id.setWidth 32)
  | .ipDf        => .ofHeader x.ipHeader fun h => .flag h.df
  | .ipMf        => .ofHeader x.ipHeader fun h => .flag h.mf
  | .ipFragOff   => .ofHeader x.ipHeader fun h => .narrow (h.fragOff.setWidth 32)
  | .ipTtl       => .ofHeader x.ipHeader fun h => .narrow (h.ttl.setWidth 32)
  | .ipProtocol  => .ofHeader x.ipHeader fun h => .narrow (h.protocol.setWidth 32)
  | .ipChecksum  => .ofHeader x.ipHeader fun h => .narrow (h.checksum.setWidth 32)
  | .ipSrcAddr   => .ofHeader x.ipHeader fun h => .wide (.mapped h.srcAddr)
  | .ipDstAddr   => .ofHeader x.ipHeader fun h => .wide (.mapped h.dstAddr)
  | .ipv6TrafficClass => .ofHeader x.ipv6Header fun h => .narrow (h.trafficClass.setWidth 32)
  -- The label is assembled from two members and then swapped as a whole, which leaves its upper
  -- four bits between the other sixteen and a zero byte.
  | .ipv6FlowLabel    =>
    .ofHeader x.ipv6Header fun h => .narrow (h.flowLabel1 ++ 0#4 ++ h.flowLabel0 ++ 0#8)
  | .ipv6Length       => .ofHeader x.ipv6Header fun h => .narrow (h.length.setWidth 32)
  | .ipv6NextHdr      => .ofHeader x.ipv6Header fun h => .narrow (h.nextHdr.setWidth 32)
  | .ipv6HopLimit     => .ofHeader x.ipv6Header fun h => .narrow (h.hopLimit.setWidth 32)
  | .ipv6SrcAddr      => .ofHeader x.ipv6Header fun h => .wide h.srcAddr
  | .ipv6DstAddr      => .ofHeader x.ipv6Header fun h => .wide h.dstAddr
  | .icmpType       => .ofHeader x.icmpHeader fun h => .narrow (h.type.setWidth 32)
  | .icmpCode       => .ofHeader x.icmpHeader fun h => .narrow (h.code.setWidth 32)
  | .icmpChecksum   => .ofHeader x.icmpHeader fun h => .narrow (h.checksum.setWidth 32)
  | .icmpBody       => .ofHeader x.icmpHeader fun h => .narrow h.body
  | .icmpv6Type     => .ofHeader x.icmpv6Header fun h => .narrow (h.type.setWidth 32)
  | .icmpv6Code     => .ofHeader x.icmpv6Header fun h => .narrow (h.code.setWidth 32)
  | .icmpv6Checksum => .ofHeader x.icmpv6Header fun h => .narrow (h.checksum.setWidth 32)
  | .icmpv6Body     => .ofHeader x.icmpv6Header fun h => .narrow h.body
  | .tcpSrcPort   => .ofHeader x.tcpHeader fun h => .narrow (h.srcPort.setWidth 32)
  | .tcpDstPort   => .ofHeader x.tcpHeader fun h => .narrow (h.dstPort.setWidth 32)
  | .tcpSeqNum    => .ofHeader x.tcpHeader fun h => .narrow h.seqNum
  | .tcpAckNum    => .ofHeader x.tcpHeader fun h => .narrow h.ackNum
  | .tcpHdrLength => .ofHeader x.tcpHeader fun h => .narrow (h.hdrLength.setWidth 32)
  | .tcpUrg       => .ofHeader x.tcpHeader fun h => .flag h.urg
  | .tcpAck       => .ofHeader x.tcpHeader fun h => .flag h.ack
  | .tcpPsh       => .ofHeader x.tcpHeader fun h => .flag h.psh
  | .tcpRst       => .ofHeader x.tcpHeader fun h => .flag h.rst
  | .tcpSyn       => .ofHeader x.tcpHeader fun h => .flag h.syn
  | .tcpFin       => .ofHeader x.tcpHeader fun h => .flag h.fin
  | .tcpWindow    => .ofHeader x.tcpHeader fun h => .narrow (h.window.setWidth 32)
  | .tcpChecksum  => .ofHeader x.tcpHeader fun h => .narrow (h.checksum.setWidth 32)
  | .tcpUrgPtr    => .ofHeader x.tcpHeader fun h => .narrow (h.urgPtr.setWidth 32)
  | .tcpPayloadLength => .ofHeader x.tcpHeader fun _ => .narrow (.ofNat 32 x.payloadLen)
  | .udpSrcPort   => .ofHeader x.udpHeader fun h => .narrow (h.srcPort.setWidth 32)
  | .udpDstPort   => .ofHeader x.udpHeader fun h => .narrow (h.dstPort.setWidth 32)
  | .udpLength    => .ofHeader x.udpHeader fun h => .narrow (h.length.setWidth 32)
  | .udpChecksum  => .ofHeader x.udpHeader fun h => .narrow (h.checksum.setWidth 32)
  | .udpPayloadLength => .ofHeader x.udpHeader fun _ => .narrow (.ofNat 32 x.payloadLen)
  | .localAddr    => x.layered (.wide (x.endpointAddr x.outbound)) .error fun d => .wide d.localAddr
  | .remoteAddr   => x.layered (.wide (x.endpointAddr !x.outbound)) .error fun d => .wide d.remoteAddr
  | .localPort    =>
    x.layered (.narrow (x.endpointPort x.outbound)) .error fun d => .narrow (d.localPort.setWidth 32)
  | .remotePort   =>
    x.layered (.narrow (x.endpointPort !x.outbound)) .error fun d => .narrow (d.remotePort.setWidth 32)
  | .protocol     =>
    x.layered (.narrow (x.protocol.setWidth 32)) .error fun d => .narrow (d.protocol.setWidth 32)
  | .processId    =>
    if x.layer = .reflect then .narrow x.reflectData.processId
    else x.layered .error .error fun d => .narrow d.processId
  | .endpointId       => x.layered .error .error fun d => .wide64 false d.endpointId
  | .parentEndpointId => x.layered .error .error fun d => .wide64 false d.parentEndpointId
  | .layer    => .narrow (match x.reflectData.layer with
    | .network => 0 | .networkForward => 1 | .flow => 2 | .socket => 3 | .reflect => 4)
  | .priority =>
    .value (x.reflectData.priority < 0) false (.ofNarrow (.ofNat 32 x.reflectData.priority.natAbs))
  | .other    => .error

-- The result of one test, none where the evaluator gives up.
def answer (x : Input) (insn : Insn) : Option Bool :=
  if validateField x.layer insn.field then
    match readField x insn.field insn.arg with
    | .error             => none
    | .absent            => some false
    | .value neg big val => insn.test.holds (compare128 neg val insn.neg insn.arg big)
  else
    none

def executeFilterFrom (object : List Insn) (x : Input) : Nat → Nat → Option Bool
  | 0,       _  => none
  | ttl + 1, ip => do
    let insn := object.getD ip .zero
    let next := insn.next (← answer x insn)
    if next = resultAccept then some true
    else if next = resultReject then some false
    else executeFilterFrom object x ttl next

def executeFilter (object : List Insn) (x : Input) : Option Bool :=
  executeFilterFrom object x (filterMaxLen + 1) 0

-- `WINDIVERT_ADDRESS`: what is known of a packet or an event besides its bytes. The members of the
-- union are kept side by side.
structure Address where
  timestamp   : Int
  layer       : Layer
  event       : BitVec 8
  sniffed     : Bool
  outbound    : Bool
  loopback    : Bool
  impostor    : Bool
  ipv6        : Bool
  ipChecksum  : Bool
  tcpChecksum : Bool
  udpChecksum : Bool
  network     : DataNetwork
  flow        : DataFlow
  socket      : DataSocket
  reflect     : DataReflect

-- The evaluator's input for an address and, on the packet layers, a parsed packet.
def Address.input (addr : Address) (hash : BitVec 64) (packet : Bytes) (info : Option PacketInfo) :
    Input where
  layer        := addr.layer
  timestamp    := addr.timestamp
  event        := addr.event.setWidth 32
  ipv4         := !addr.ipv6
  outbound     := addr.outbound
  loopback     := addr.loopback
  impostor     := addr.impostor
  fragment     := info.any PacketInfo.fragment
  networkData  := addr.network
  flowData     := addr.flow
  socketData   := addr.socket
  reflectData  := addr.reflect
  ipHeader     := info.bind PacketInfo.ipHeader
  ipv6Header   := info.bind PacketInfo.ipv6Header
  icmpHeader   := info.bind PacketInfo.icmpHeader
  icmpv6Header := info.bind PacketInfo.icmpv6Header
  tcpHeader    := info.bind PacketInfo.tcpHeader
  udpHeader    := info.bind PacketInfo.udpHeader
  protocol     := info.elim 0 PacketInfo.protocol
  packet       := packet
  headerLen    := info.elim 0 PacketInfo.headerLength
  payloadLen   := info.elim 0 PacketInfo.payloadLength
  hash         := hash

-- `wd_filter_eval`, none for `-EINVAL`. The hash stands for `WinDivertHashPacket`.
def filterEval (f : Filter) (hash : BitVec 64) (packet : Bytes) (addr : Address) : Option Bool :=
  if addr.layer ≠ f.layer then
    none
  else if addr.layer = .network ∨ addr.layer = .networkForward then do
    let info ← parsePacketEx packet
    if (addr.ipv6 ∧ info.ipv6Header.isNone) ∨ (¬addr.ipv6 ∧ info.ipHeader.isNone) then
      none
    else
      executeFilter f.object (addr.input hash packet info)
  else
    executeFilter f.object (addr.input hash packet none)

end Wd
