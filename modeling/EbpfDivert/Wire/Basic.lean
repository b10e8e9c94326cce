import EbpfDivert.Kernel.Parse
import EbpfDivert.Wd.Packet

open Shared

-- How frames are laid out, independently of the two parsers that read them. Offsets count from the
-- start of the frame; `n` is the number of bytes that can be read directly.
namespace Wire

variable {frame : Bytes} {n off : Nat}

-- An Ethernet header in front of an IP packet, untagged or with one or two VLAN tags, and its length.
inductive Ethernet (frame : Bytes) : Nat → Prop
  | untagged (ht : Kernel.isIpType (frame.be16 12)) : Ethernet frame 14
  | vlan (hv : Kernel.isVlanType (frame.be16 12)) (ht : Kernel.isIpType (frame.be16 16)) :
    Ethernet frame 18
  | qinq (hv : Kernel.isVlanType (frame.be16 12)) (hq : frame.be16 16 = 0x8100)
    (ht : Kernel.isIpType (frame.be16 20)) : Ethernet frame 22

-- The length of an IPv4 header.
def hdrLen (frame : Bytes) (off : Nat) : Nat :=
  (frame.byte off &&& 0x0F).toNat * 4

-- Where an IPv4 or an IPv6 packet says that it ends.
def end4 (frame : Bytes) (off : Nat) : Nat :=
  off + (frame.be16 (off + 2)).toNat

def end6 (frame : Bytes) (off : Nat) : Nat :=
  off + 40 + (frame.be16 (off + 4)).toNat

-- A complete IPv4 header of a packet that is no fragment.
structure Ipv4At (frame : Bytes) (n off : Nat) : Prop where
  version    : frame.byte off >>> 4 = 4
  ihl        : 20 ≤ hdrLen frame off
  length     : off + hdrLen frame off ≤ end4 frame off
  whole      : off + hdrLen frame off ≤ n
  noFragment : frame.be16 (off + 6) &&& 0x3FFF = 0

structure Ipv6At (frame : Bytes) (n off : Nat) : Prop where
  version : frame.byte off >>> 4 = 6
  whole   : off + 40 ≤ n

def icmpProto : IpVer → BitVec 8
  | .v4 => Wd.ipprotoIcmp
  | .v6 => Wd.ipprotoIcmpv6

-- The protocols whose headers both parsers look for.
def HasTransport (ver : IpVer) (proto : BitVec 8) : Prop :=
  proto = Wd.ipprotoTcp ∨ proto = Wd.ipprotoUdp ∨ proto = icmpProto ver

-- The fixed part of a transport header ends within the limit. Nothing is known of other protocols.
structure TransportAt (ver : IpVer) (proto : BitVec 8) (off limit : Nat) : Prop where
  tcp  : proto = Wd.ipprotoTcp → off + 20 ≤ limit
  udp  : proto = Wd.ipprotoUdp → off + 8 ≤ limit
  icmp : proto = icmpProto ver → off + 8 ≤ limit

-- The data offset of a TCP header is not below the length of the fixed part.
def TcpOffset (frame : Bytes) (proto : BitVec 8) (off : Nat) : Prop :=
  proto = Wd.ipprotoTcp → 5 ≤ (frame.byte (off + 12) >>> 4).toNat

-- An IPv6 extension header.
structure ExtHdr where
  proto : BitVec 8
  off   : Nat

namespace ExtHdr

-- Hop-by-hop options, routing and destination options.
def isSkippable (proto : BitVec 8) : Bool :=
  proto ∈ [Wd.ipprotoHopopts, Wd.ipprotoRouting, Wd.ipprotoDstopts]

-- Authentication and mobility as well.
def isExt (proto : BitVec 8) : Bool :=
  isSkippable proto || proto ∈ [Wd.ipprotoAh, Wd.ipprotoMh]

def lenByte (frame : Bytes) (h : ExtHdr) : BitVec 8 :=
  frame.byte (h.off + 1)

def len (frame : Bytes) (h : ExtHdr) : Nat :=
  if h.proto = Wd.ipprotoAh then ((h.lenByte frame).toNat + 2) * 4
  else ((h.lenByte frame).toNat + 1) * 8

end ExtHdr

-- The extension headers from a protocol number and an offset on to those of the transport header.
inductive Chain (frame : Bytes) : BitVec 8 → Nat → List ExtHdr → BitVec 8 → Nat → Prop
  | nil {proto : BitVec 8} {off : Nat} : Chain frame proto off [] proto off
  | cons {proto proto' : BitVec 8} {off off' : Nat} {hs : List ExtHdr} (he : ExtHdr.isExt proto)
    (ht : Chain frame (frame.byte off) (off + ExtHdr.len frame ⟨proto, off⟩) hs proto' off') :
    Chain frame proto off (⟨proto, off⟩ :: hs) proto' off'

-- The protocol number of something that is no extension header, fragments included.
def IsUpper (proto : BitVec 8) : Prop :=
  ExtHdr.isExt proto = false ∧ proto ≠ Wd.ipprotoFragment

-- An IPv6 packet whose extension headers lead to a transport header, everything among the first
-- `n` bytes of the frame and before the packet's own end.
structure ChainAt (frame : Bytes) (n off : Nat) (hs : List ExtHdr) (proto : BitVec 8) (off' : Nat) :
    Prop where
  ipv6      : Ipv6At frame n off
  chain     : Chain frame (frame.byte (off + 6)) (off + 40) hs proto off'
  upper     : IsUpper proto
  whole     : off' ≤ min n (end6 frame off)
  transport : TransportAt .v6 proto off' (min n (end6 frame off))

-- The length of the fixed part of a transport header.
def transportLen (proto : BitVec 8) : Option Nat :=
  if proto = Wd.ipprotoTcp then some 20
  else if proto ∈ [Wd.ipprotoUdp, Wd.ipprotoIcmp, Wd.ipprotoIcmpv6] then some 8
  else none

-- A transport header that is cut off by the limit, or a TCP header that claims to be shorter than
-- its fixed part.
inductive Broken (frame : Bytes) (proto : BitVec 8) (off limit : Nat) : Prop
  | short {len : Nat} (hp : transportLen proto = some len) (hl : limit < off + len)
  | offset (hp : proto = Wd.ipprotoTcp) (ho : (frame.byte (off + 12) >>> 4).toNat < 5)

-- An IP packet without extension headers that is no fragment, with such a transport header. It ends
-- where the frame does or where it says itself; in the latter case padding may follow.
inductive BrokenAt (frame : Bytes) (off : Nat) : IpVer → BitVec 8 → Prop
  | v4 (hv : frame.byte off >>> 4 = 4) (hf : frame.be16 (off + 6) &&& 0x3FFF = 0)
    (hb : Broken frame (frame.byte (off + 9)) (off + hdrLen frame off)
      (min (end4 frame off) frame.length)) : BrokenAt frame off .v4 (frame.byte (off + 9))
  | v6 (hv : frame.byte off >>> 4 = 6)
    (hb : Broken frame (frame.byte (off + 6)) (off + 40) (min (end6 frame off) frame.length)) :
    BrokenAt frame off .v6 (frame.byte (off + 6))

-- At least the IP header of the packet is in order.
def HeaderAt (frame : Bytes) (off : Nat) : IpVer → Prop
  | .v4 => Ipv4At frame frame.length off
  | .v6 => Ipv6At frame frame.length off

end Wire
