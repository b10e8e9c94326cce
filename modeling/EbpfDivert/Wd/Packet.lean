import EbpfDivert.Primitives.Bytes
import EbpfDivert.Wd.Basic

namespace Wd

def ipprotoHopopts  : BitVec 8 := 0
def ipprotoIcmp     : BitVec 8 := 1
def ipprotoTcp      : BitVec 8 := 6
def ipprotoUdp      : BitVec 8 := 17
def ipprotoRouting  : BitVec 8 := 43
def ipprotoFragment : BitVec 8 := 44
def ipprotoAh       : BitVec 8 := 51
def ipprotoIcmpv6   : BitVec 8 := 58
def ipprotoDstopts  : BitVec 8 := 60
def ipprotoMh       : BitVec 8 := 135

-- The headers with every number in host order.
structure IpHdr where
  hdrLength : BitVec 4
  tos       : BitVec 8
  length    : BitVec 16
  id        : BitVec 16
  df        : Bool
  mf        : Bool
  fragOff   : BitVec 13
  ttl       : BitVec 8
  protocol  : BitVec 8
  checksum  : BitVec 16
  srcAddr   : BitVec 32
  dstAddr   : BitVec 32

def IpHdr.size : Nat := 20

def IpHdr.decode (b : Bytes) : IpHdr where
  hdrLength := (b.byte 0).setWidth 4
  tos       := b.byte 1
  length    := b.be16 2
  id        := b.be16 4
  df        := (b.byte 6).getLsbD 6
  mf        := (b.byte 6).getLsbD 5
  fragOff   := (b.be16 6).setWidth 13
  ttl       := b.byte 8
  protocol  := b.byte 9
  checksum  := b.be16 10
  srcAddr   := b.be32 12
  dstAddr   := b.be32 16

structure Ipv6Hdr where
  trafficClass : BitVec 8
  flowLabel0   : BitVec 4
  flowLabel1   : BitVec 16
  length       : BitVec 16
  nextHdr      : BitVec 8
  hopLimit     : BitVec 8
  srcAddr      : Words
  dstAddr      : Words

def Ipv6Hdr.size : Nat := 40

def Ipv6Hdr.decode (b : Bytes) : Ipv6Hdr where
  trafficClass := (b.byte 0).setWidth 4 ++ (b.byte 1 >>> 4).setWidth 4
  flowLabel0   := (b.byte 1).setWidth 4
  flowLabel1   := b.be16 2
  length       := b.be16 4
  nextHdr      := b.byte 6
  hopLimit     := b.byte 7
  srcAddr      := .of (b.be32 20) (b.be32 16) (b.be32 12) (b.be32 8)
  dstAddr      := .of (b.be32 36) (b.be32 32) (b.be32 28) (b.be32 24)

-- ICMP and ICMPv6 headers have the same layout.
structure IcmpHdr where
  type     : BitVec 8
  code     : BitVec 8
  checksum : BitVec 16
  body     : BitVec 32

def IcmpHdr.size : Nat := 8

def IcmpHdr.decode (b : Bytes) : IcmpHdr where
  type     := b.byte 0
  code     := b.byte 1
  checksum := b.be16 2
  body     := b.be32 4

structure TcpHdr where
  srcPort   : BitVec 16
  dstPort   : BitVec 16
  seqNum    : BitVec 32
  ackNum    : BitVec 32
  hdrLength : BitVec 4
  fin       : Bool
  syn       : Bool
  rst       : Bool
  psh       : Bool
  ack       : Bool
  urg       : Bool
  window    : BitVec 16
  checksum  : BitVec 16
  urgPtr    : BitVec 16

def TcpHdr.size : Nat := 20

def TcpHdr.decode (b : Bytes) : TcpHdr where
  srcPort   := b.be16 0
  dstPort   := b.be16 2
  seqNum    := b.be32 4
  ackNum    := b.be32 8
  hdrLength := (b.byte 12 >>> 4).setWidth 4
  fin       := (b.byte 13).getLsbD 0
  syn       := (b.byte 13).getLsbD 1
  rst       := (b.byte 13).getLsbD 2
  psh       := (b.byte 13).getLsbD 3
  ack       := (b.byte 13).getLsbD 4
  urg       := (b.byte 13).getLsbD 5
  window    := b.be16 14
  checksum  := b.be16 16
  urgPtr    := b.be16 18

structure UdpHdr where
  srcPort  : BitVec 16
  dstPort  : BitVec 16
  length   : BitVec 16
  checksum : BitVec 16

def UdpHdr.size : Nat := 8

def UdpHdr.decode (b : Bytes) : UdpHdr where
  srcPort  := b.be16 0
  dstPort  := b.be16 2
  length   := b.be16 4
  checksum := b.be16 6

structure PacketInfo where
  protocol      : BitVec 8
  fragment      : Bool
  mf            : Bool
  fragOff       : BitVec 16
  truncated     : Bool
  extended      : Bool
  ipHeader      : Option IpHdr
  ipv6Header    : Option Ipv6Hdr
  icmpHeader    : Option IcmpHdr
  icmpv6Header  : Option IcmpHdr
  tcpHeader     : Option TcpHdr
  udpHeader     : Option UdpHdr
  headerLength  : Nat
  payloadLength : Nat

-- Where the walk along the IPv6 header chain is. `data` are the bytes that are left of the packet,
-- so its length is the counter `data_len`.
structure Chain where
  protocol : BitVec 8
  data     : Bytes
  fragOff  : BitVec 16
  mf       : Bool
  fragment : Bool

-- The size of the extension header at the front, or none if the chain ends here.
def Chain.extHeaderLen (s : Chain) : Option Nat :=
  let headerLen := (s.data.byte 1).toNat
  if s.protocol = ipprotoFragment then
    if s.fragment ∨ s.data.length < 8 then none else some 8
  else if s.protocol = ipprotoAh then
    some ((headerLen + 2) * 4)
  else if s.protocol = ipprotoHopopts ∨ s.protocol = ipprotoDstopts ∨
      s.protocol = ipprotoRouting ∨ s.protocol = ipprotoMh then
    some ((headerLen + 1) * 8)
  else
    none

def Chain.skip (s : Chain) (headerLen : Nat) : Chain :=
  let s' := { s with protocol := s.data.byte 0, data := s.data.drop headerLen }
  if s.protocol = ipprotoFragment then
    { s' with fragOff := s.data.be16 2 &&& 0xFFF8, mf := (s.data.byte 3).getLsbD 0, fragment := true }
  else
    s'

-- Every extension header takes at least eight bytes, so the length of the packet is enough fuel.
def Chain.walk : Nat → Chain → Chain
  | 0,        s => s
  | fuel + 1, s =>
    if s.fragOff = 0 ∧ 2 ≤ s.data.length then
      match s.extHeaderLen with
      | none           => s
      | some headerLen => if s.data.length < headerLen then s else walk fuel (s.skip headerLen)
    else
      s

structure Transport where
  icmpHeader   : Option IcmpHdr := none
  icmpv6Header : Option IcmpHdr := none
  tcpHeader    : Option TcpHdr := none
  udpHeader    : Option UdpHdr := none
  headerLen    : Nat := 0

def parseTransport (ipv6 : Bool) (protocol : BitVec 8) (data : Bytes) : Transport :=
  if protocol = ipprotoTcp then
    let tcp := TcpHdr.decode data
    if data.length < TcpHdr.size ∨ tcp.hdrLength.toNat < 5 then {}
    else { tcpHeader := some tcp, headerLen := min (tcp.hdrLength.toNat * 4) data.length }
  else if protocol = ipprotoUdp then
    if data.length < UdpHdr.size then {}
    else { udpHeader := some (UdpHdr.decode data), headerLen := UdpHdr.size }
  else if protocol = ipprotoIcmp then
    if ipv6 ∨ data.length < IcmpHdr.size then {}
    else { icmpHeader := some (IcmpHdr.decode data), headerLen := IcmpHdr.size }
  else if protocol = ipprotoIcmpv6 then
    if ¬ipv6 ∨ data.length < IcmpHdr.size then {}
    else { icmpv6Header := some (IcmpHdr.decode data), headerLen := IcmpHdr.size }
  else
    {}

-- The common end of the parser: `s` is where the chain of IP headers stopped.
def packetInfo (packet : Bytes) (totalLen : Nat) (ip : Option IpHdr) (ipv6 : Option Ipv6Hdr)
    (s : Chain) : PacketInfo :=
  let t := if s.fragOff = 0 then parseTransport ipv6.isSome s.protocol s.data else {}
  let dataLen := s.data.length - t.headerLen
  { protocol := s.protocol, fragment := s.fragment, mf := s.mf, fragOff := s.fragOff
    truncated := packet.length < totalLen, extended := totalLen < packet.length
    ipHeader := ip, ipv6Header := ipv6
    icmpHeader := t.icmpHeader, icmpv6Header := t.icmpv6Header
    tcpHeader := t.tcpHeader, udpHeader := t.udpHeader
    headerLength := min totalLen packet.length - dataLen, payloadLength := dataLen }

def parsePacketEx (packet : Bytes) : Option PacketInfo :=
  let version := packet.byte 0 >>> 4
  if packet.length < IpHdr.size then
    none
  else if version = 4 then
    let ip := IpHdr.decode packet
    let totalLen := ip.length.toNat
    let headerLen := ip.hdrLength.toNat * 4
    if ip.hdrLength.toNat < 5 ∨ totalLen < headerLen ∨ packet.length < headerLen then
      none
    else
      let fragOff := ip.fragOff.setWidth 16
      some <| packetInfo packet totalLen (some ip) none
        { protocol := ip.protocol, data := (packet.take totalLen).drop headerLen, fragOff := fragOff
          mf := ip.mf, fragment := ip.mf || fragOff != 0 }
  else if version = 6 then
    if packet.length < Ipv6Hdr.size then
      none
    else
      let ipv6 := Ipv6Hdr.decode packet
      let totalLen := ipv6.length.toNat + Ipv6Hdr.size
      let data := (packet.take totalLen).drop Ipv6Hdr.size
      some <| packetInfo packet totalLen none (some ipv6) <| Chain.walk packet.length
        { protocol := ipv6.nextHdr, data := data, fragOff := 0, mf := false, fragment := false }
  else
    none

end Wd
