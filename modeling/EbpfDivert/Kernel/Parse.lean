import EbpfDivert.Shared

open Shared

-- The parser of the packet programs. It sees the bytes up to `data_end`.
namespace Kernel

structure ParsedPacket where
  ver      : IpVer
  srcIp    : BitVec 32
  dstIp    : BitVec 32
  srcIp6   : Bytes
  dstIp6   : Bytes
  srcPort  : BitVec 16   -- tcp/udp ports, icmp type/code
  dstPort  : BitVec 16
  l2Len    : Nat
  proto    : BitVec 8
  ttl      : BitVec 8
  tcpFlags : BitVec 8
  fragment : Bool
  isLo     : Bool

def isIpType (ethertype : BitVec 16) : Bool :=
  ethertype = 0x0800 ∨ ethertype = 0x86DD

def isVlanType (ethertype : BitVec 16) : Bool :=
  ethertype = 0x8100 ∨ ethertype = 0x88A8

-- Ethernet, possibly with one or two VLAN tags.
def ethernetLen (data : Bytes) : Option Nat :=
  if data.length < 14 then none
  else if isIpType (data.be16 12) then some 14
  else if !isVlanType (data.be16 12) ∨ data.length < 18 then none
  else if isIpType (data.be16 16) then some 18
  else if data.be16 16 ≠ 0x8100 ∨ data.length < 22 then none
  else if isIpType (data.be16 20) then some 22
  else none

def isIpVersion (b : BitVec 8) : Bool :=
  b >>> 4 = 4 ∨ b >>> 4 = 6

-- Without a known EtherType, a version number where an IP header could start.
def guessLen (data : Bytes) (off : Nat) : Option Nat :=
  if off + 20 ≤ data.length ∧ isIpVersion (data.byte off) then some off else none

-- Ethernet, raw IP, or a header of four bytes as loopback and tunnel devices have it.
def findL2 (data : Bytes) : Option Nat :=
  (ethernetLen data).or <| (guessLen data 0).or <| guessLen data 4

structure Transport where
  srcPort  : BitVec 16 := 0
  dstPort  : BitVec 16 := 0
  tcpFlags : BitVec 8 := 0

-- The transport header, all zero if it is not complete or of another protocol.
def readTransport (data : Bytes) (off : Nat) (proto icmp : BitVec 8) : Transport :=
  if proto = 6 then
    if off + 20 ≤ data.length then ⟨data.be16 off, data.be16 (off + 2), data.byte (off + 13)⟩ else {}
  else if proto = 17 then
    if off + 8 ≤ data.length then ⟨data.be16 off, data.be16 (off + 2), 0⟩ else {}
  else if proto = icmp then
    if off + 8 ≤ data.length then
      ⟨(data.byte off).setWidth 16, (data.byte (off + 1)).setWidth 16, 0⟩
    else {}
  else {}

def parseIpv4 (data : Bytes) (l2Len : Nat) : Option ParsedPacket :=
  let ihl := (data.byte l2Len &&& 0x0F).toNat
  let fragOff := data.be16 (l2Len + 6)
  let proto := data.byte (l2Len + 9)
  -- Later fragments have no transport header.
  let t := if fragOff &&& 0x1FFF ≠ 0 then {} else readTransport data (l2Len + ihl * 4) proto 1
  if data.length < l2Len + 20 then none
  else if ihl < 5 then none
  else some
    { ver      := .v4
      srcIp    := data.be32 (l2Len + 12)
      dstIp    := data.be32 (l2Len + 16)
      srcIp6   := .replicate 16 0
      dstIp6   := .replicate 16 0
      srcPort  := t.srcPort
      dstPort  := t.dstPort
      l2Len    := l2Len
      proto    := proto
      ttl      := data.byte (l2Len + 8)
      tcpFlags := t.tcpFlags
      fragment := fragOff &&& 0x3FFF ≠ 0
      isLo     := false }

def maxExtHeaders : Nat := 4

structure ExtState where
  nexthdr  : BitVec 8
  off      : Nat
  fragment : Bool

-- Hop-by-hop options, routing, fragment, destination options.
def isExtHeader (nexthdr : BitVec 8) : Bool :=
  nexthdr = 0 ∨ nexthdr = 43 ∨ nexthdr = 44 ∨ nexthdr = 60

-- None if a header is cut off. The length of a header only keeps eleven bits.
def skipExtHeaders (data : Bytes) : Nat → ExtState → Option ExtState
  | 0,     s => some s
  | n + 1, s =>
    if !isExtHeader s.nexthdr then some s
    else if data.length < s.off + 8 then none
    else
      let hdrLen := (if s.nexthdr = 44 then 8 else ((data.byte (s.off + 1)).toNat + 1) * 8) % 0x800
      if data.length < s.off + hdrLen then none
      else skipExtHeaders data n
        { nexthdr := data.byte s.off, off := s.off + hdrLen, fragment := s.fragment ∨ s.nexthdr = 44 }

def parseIpv6 (data : Bytes) (l2Len : Nat) : Option ParsedPacket :=
  if data.length < l2Len + 40 then none
  else do
    let s ← skipExtHeaders data maxExtHeaders ⟨data.byte (l2Len + 6), l2Len + 40, false⟩
    let t := if s.fragment then {} else readTransport data s.off s.nexthdr 58
    some
      { ver      := .v6
        srcIp    := 0
        dstIp    := 0
        srcIp6   := (data.drop (l2Len + 8)).take 16
        dstIp6   := (data.drop (l2Len + 24)).take 16
        srcPort  := t.srcPort
        dstPort  := t.dstPort
        l2Len    := l2Len
        proto    := s.nexthdr
        ttl      := data.byte (l2Len + 7)
        tcpFlags := t.tcpFlags
        fragment := s.fragment
        isLo     := false }

-- None if the packet is neither IPv4 nor IPv6 or a header is cut off. `is_lo` is left to the caller.
def parsePacket (data : Bytes) : Option ParsedPacket := do
  let l2Len ← findL2 data
  if data.length < l2Len + 1 then none
  else if data.byte l2Len >>> 4 = 4 then parseIpv4 data l2Len
  else if data.byte l2Len >>> 4 = 6 then parseIpv6 data l2Len
  else none

end Kernel
