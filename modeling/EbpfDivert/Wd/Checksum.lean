import EbpfDivert.Primitives.Flags
import EbpfDivert.Primitives.Memory
import EbpfDivert.Wd.Packet

-- The checksums of a packet. They are computed over the words of the packet as they are in memory.
namespace Wd

-- What the parser knows once it is behind the IP headers.
structure Located where
  totalLen : Nat
  ipv6     : Bool
  chain    : Chain

-- The first part of `WinDivertHelperParsePacketEx`.
def locate (packet : Bytes) : Option Located :=
  let version := packet.byte 0 >>> 4
  if packet.length < IpHdr.size then
    none
  else if version = 4 then
    let ip := IpHdr.decode packet
    let totalLen := ip.length.toNat
    let headerLen := ip.hdrLength.toNat * 4
    if ip.hdrLength.toNat < 5 ∨ totalLen < headerLen ∨ packet.length < headerLen then
      none
    else
      let fragOff := ip.fragOff.setWidth 16
      some
        { totalLen, ipv6 := false
          chain :=
            { protocol := ip.protocol, data := (packet.take totalLen).drop headerLen
              fragOff := fragOff, mf := ip.mf, fragment := ip.mf || fragOff != 0 } }
  else if version = 6 then
    if packet.length < Ipv6Hdr.size then
      none
    else
      let ipv6 := Ipv6Hdr.decode packet
      let totalLen := ipv6.length.toNat + Ipv6Hdr.size
      let data := (packet.take totalLen).drop Ipv6Hdr.size
      some
        { totalLen, ipv6 := true
          chain := Chain.walk packet.length
            { protocol := ipv6.nextHdr, data := data, fragOff := 0, mf := false, fragment := false } }
  else
    none

def Located.info (l : Located) (packet : Bytes) : PacketInfo :=
  packetInfo packet l.totalLen (if l.ipv6 then none else some (.decode packet))
    (if l.ipv6 then some (.decode packet) else none) l.chain

-- Where the header of the transport layer starts.
def Located.off (l : Located) (packet : Bytes) : Nat :=
  min l.totalLen packet.length - l.chain.data.length

theorem parsePacketEx_eq (packet : Bytes) :
    parsePacketEx packet = (locate packet).map (·.info packet) := by
  simp only [parsePacketEx, locate]
  split_ifs <;> rfl

-- The sum of the words, with a last odd byte on its own.
def sumWords : Bytes → BitVec 32
  | lo :: hi :: rest => (hi ++ lo).setWidth 32 + sumWords rest
  | [last]           => last.setWidth 32
  | []               => 0

def calcChecksum (pseudo data : Bytes) : BitVec 16 :=
  let sum := sumWords pseudo + sumWords data
  let sum := (sum &&& 0xFFFF#32) + (sum >>> 16)
  let sum := sum + (sum >>> 16)
  (~~~sum).setWidth 16

def initPseudoHeader (packet : Bytes) (ipv6 : Bool) (protocol : BitVec 8) (len : Nat) : Bytes :=
  if ipv6 then
    packet.slice 8 32 ++ (Bytes.enc 4 len).reverse ++ [0, 0, 0, protocol]
  else
    packet.slice 12 8 ++ [0, protocol] ++ (Bytes.enc 2 len).reverse

-- A checksum field at an offset of its header, and what it is computed over.
structure ChecksumField where
  hdr    : Nat
  field  : Nat
  len    : Nat
  pseudo : Bytes
  udp    : Bool

def ChecksumField.pos (f : ChecksumField) : Nat :=
  f.hdr + f.field

-- The value of a field, computed while the field itself is zero. `behind` is what lies behind the
-- packet in memory: a TCP header may claim to be longer than the packet. A checksum of UDP is never
-- zero.
def ChecksumField.compute (f : ChecksumField) (packet behind : Bytes) : BitVec 16 :=
  let zeroed := packet.store f.pos [0, 0]
  let sum := calcChecksum f.pseudo (Bytes.slice (zeroed ++ behind) f.hdr f.len)
  if f.udp ∧ sum = 0 then 0xFFFF else sum

def ChecksumField.fill (f : ChecksumField) (packet behind : Bytes) : Bytes :=
  packet.store f.pos (.enc 2 (f.compute packet behind).toNat)

def ipField (info : PacketInfo) : Option ChecksumField :=
  info.ipHeader.map fun ip => ⟨0, 10, ip.hdrLength.toNat * 4, [], false⟩

abbrev noIpChecksum     := Flags.bit 64 0
abbrev noIcmpChecksum   := Flags.bit 64 1
abbrev noIcmpv6Checksum := Flags.bit 64 2
abbrev noTcpChecksum    := Flags.bit 64 3
abbrev noUdpChecksum    := Flags.bit 64 4

-- The field of the transport header at `off` with the flag that keeps it as it is.
def transportField (packet : Bytes) (info : PacketInfo) (off : Nat) :
    Option (BitVec 64 × ChecksumField) :=
  let pseudo := initPseudoHeader packet info.ipv6Header.isSome
  if info.icmpHeader.isSome then
    some (noIcmpChecksum, ⟨off, 2, info.payloadLength + IcmpHdr.size, [], false⟩)
  else if info.icmpv6Header.isSome then
    let len := info.payloadLength + IcmpHdr.size
    some (noIcmpv6Checksum, ⟨off, 2, len, pseudo ipprotoIcmpv6 len, false⟩)
  else match info.tcpHeader with
    | some tcp =>
      let len := info.payloadLength + tcp.hdrLength.toNat * 4
      some (noTcpChecksum, ⟨off, 16, len, pseudo ipprotoTcp len, false⟩)
    | none =>
      if info.udpHeader.isSome then
        let len := info.payloadLength + UdpHdr.size
        some (noUdpChecksum, ⟨off, 6, len, pseudo ipprotoUdp len, true⟩)
      else none

def fillIp (packet behind : Bytes) (info : PacketInfo) (flags : BitVec 64) : Bytes :=
  match ipField info with
  | some f => if Flags.has flags noIpChecksum then packet else f.fill packet behind
  | none   => packet

-- Whether the packet could be parsed and is complete, and the packet with its new checksums.
def calcChecksums (packet behind : Bytes) (flags : BitVec 64) : Bool × Bytes :=
  match locate packet with
  | none   => (false, packet)
  | some l =>
    let info := l.info packet
    let filled := fillIp packet behind info flags
    let truncated := info.truncated || info.mf || info.fragOff != 0
    match transportField packet info (l.off packet) with
    | none           => (true, filled)
    | some (flag, f) =>
      if Flags.has flags flag then (true, filled)
      else if truncated then (false, filled)
      else (true, f.fill filled behind)

-- Which checksums of the IP, TCP and UDP headers are right, none of them if the packet is not whole.
def verifyChecksums (packet behind : Bytes) : Bool × Bool × Bool :=
  match locate packet with
  | none   => (false, false, false)
  | some l =>
    let info := l.info packet
    let copy := (calcChecksums packet behind 0).2
    let same := fun pos => copy.slice pos 2 = packet.slice pos 2
    if info.fragment || info.truncated then (false, false, false)
    else (info.ipHeader.isSome && same 10, info.tcpHeader.isSome && same (l.off packet + 16),
      info.udpHeader.isSome && same (l.off packet + 6))

end Wd
