import EbpfDivert.Wire.Theorems.Parsers

open Shared

namespace Wire

variable {frame : Bytes} {n off off' o e : Nat} {proto proto' : BitVec 8} {hs : List ExtHdr}
variable {ver : IpVer}

-- Both parsers have found the same protocol and the same ports, or the same type and code.
structure SamePorts (pkt : Kernel.ParsedPacket) (info : Wd.PacketInfo) : Prop where
  proto  : pkt.proto = info.protocol
  tcp    : ∀ h ∈ info.tcpHeader, pkt.srcPort = h.srcPort ∧ pkt.dstPort = h.dstPort
  udp    : ∀ h ∈ info.udpHeader, pkt.srcPort = h.srcPort ∧ pkt.dstPort = h.dstPort
  icmp   : ∀ h ∈ info.icmpHeader,
    pkt.srcPort = h.type.setWidth 16 ∧ pkt.dstPort = h.code.setWidth 16
  icmpv6 : ∀ h ∈ info.icmpv6Header,
    pkt.srcPort = h.type.setWidth 16 ∧ pkt.dstPort = h.code.setWidth 16

-- Everything that the packet programs know of a packet is what the evaluator reads, which has the
-- headers that version and protocol promise. Neither takes the packet for a fragment.
structure Agrees (pkt : Kernel.ParsedPacket) (info : Wd.PacketInfo) : Prop
    extends SamePorts pkt info where
  hasIp     : info.ipHeader.isSome ↔ pkt.ver = .v4
  hasIpv6   : info.ipv6Header.isSome ↔ pkt.ver = .v6
  hasTcp    : info.tcpHeader.isSome ↔ pkt.proto = Wd.ipprotoTcp
  hasUdp    : info.udpHeader.isSome ↔ pkt.proto = Wd.ipprotoUdp
  hasIcmp   : info.icmpHeader.isSome ↔ pkt.ver = .v4 ∧ pkt.proto = Wd.ipprotoIcmp
  hasIcmpv6 : info.icmpv6Header.isSome ↔ pkt.ver = .v6 ∧ pkt.proto = Wd.ipprotoIcmpv6
  fragment  : pkt.fragment = false ∧ info.fragment = false
  ip        : ∀ h ∈ info.ipHeader, pkt.srcIp = h.srcAddr ∧ pkt.dstIp = h.dstAddr ∧
    pkt.ttl = h.ttl ∧ pkt.proto = h.protocol
  ipv6      : ∀ h ∈ info.ipv6Header, pkt.srcIp6 = h.srcAddr.toNet16 ∧
    pkt.dstIp6 = h.dstAddr.toNet16 ∧ pkt.ttl = h.hopLimit
  tcpFlags  : ∀ h ∈ info.tcpHeader,
    pkt.tcpFlags.getLsbD 0 = h.fin ∧ pkt.tcpFlags.getLsbD 1 = h.syn ∧
    pkt.tcpFlags.getLsbD 2 = h.rst ∧ pkt.tcpFlags.getLsbD 3 = h.psh ∧
    pkt.tcpFlags.getLsbD 4 = h.ack ∧ pkt.tcpFlags.getLsbD 5 = h.urg

section Transport

theorem setWidth_inj {a b : BitVec 8} : a.setWidth 16 = b.setWidth 16 ↔ a = b := by
  refine ⟨fun h => BitVec.eq_of_toNat_eq ?_, congrArg _⟩
  have := congrArg BitVec.toNat h
  rwa [BitVec.toNat_setWidth_of_le (by decide), BitVec.toNat_setWidth_of_le (by decide)] at this

theorem forall_mem_ite {α : Type} {a : α} {φ : Prop} [Decidable φ] {P : α → Prop} :
    (∀ x ∈ if φ then some a else none, P x) ↔ (φ → P a) := by
  split_ifs with h <;> simp [h]

theorem readAt_tcp (hn : n ≤ frame.length) (hp : proto = Wd.ipprotoTcp) (hl : o + 20 ≤ n) :
    readAt frame n ver proto o =
      ⟨frame.be16 o, frame.be16 (o + 2), frame.byte (o + 13)⟩ := by
  have hlen : (frame.take n).length = n := by simp; omega
  rw [readAt, Kernel.readTransport, if_pos (show proto = 6 from hp), hlen, if_pos hl,
    Bytes.be16_take (by omega), Bytes.be16_take (by omega), Bytes.byte_take (by omega)]

theorem readAt_udp (hn : n ≤ frame.length) (hp : proto = Wd.ipprotoUdp) (hl : o + 8 ≤ n) :
    readAt frame n ver proto o = ⟨frame.be16 o, frame.be16 (o + 2), 0⟩ := by
  have hlen : (frame.take n).length = n := by simp; omega
  rw [readAt, Kernel.readTransport, if_neg (by rw [hp]; decide),
    if_pos (show proto = 17 from hp), hlen, if_pos hl, Bytes.be16_take (by omega), Bytes.be16_take (by omega)]

theorem readAt_icmp (hn : n ≤ frame.length) (hp : proto = icmpProto ver) (hl : o + 8 ≤ n) :
    readAt frame n ver proto o =
      ⟨(frame.byte o).setWidth 16, (frame.byte (o + 1)).setWidth 16, 0⟩ := by
  have hlen : (frame.take n).length = n := by simp; omega
  rw [readAt, Kernel.readTransport, if_neg (by rw [hp]; cases ver <;> decide),
    if_neg (by rw [hp]; cases ver <;> decide), if_pos hp, hlen, if_pos hl,
    Bytes.byte_take (by omega), Bytes.byte_take (by omega)]

-- The ports, or type and code, at two offsets are the same, as far as the second one has them.
structure SameStart (frame : Bytes) (ver : IpVer) (proto : BitVec 8) (o off : Nat) : Prop where
  tcp  : proto = Wd.ipprotoTcp → 5 ≤ (frame.byte (off + 12) >>> 4).toNat →
    frame.be16 o = frame.be16 off ∧ frame.be16 (o + 2) = frame.be16 (off + 2)
  udp  : proto = Wd.ipprotoUdp →
    frame.be16 o = frame.be16 off ∧ frame.be16 (o + 2) = frame.be16 (off + 2)
  icmp : proto = icmpProto ver →
    frame.byte o = frame.byte off ∧ frame.byte (o + 1) = frame.byte (off + 1)

variable {packet : Bytes} {total : Nat} {ip : Option Wd.IpHdr} {ipv6 : Option Wd.Ipv6Hdr}
variable {pkt : Kernel.ParsedPacket}

-- What the evaluator finds out if the chain of headers leads to a transport header.
def infoAt (frame : Bytes) (packet : Bytes) (total : Nat) (ip : Option Wd.IpHdr)
    (ipv6 : Option Wd.Ipv6Hdr) (proto : BitVec 8) (off e : Nat) : Wd.PacketInfo :=
  Wd.packetInfo packet total ip ipv6 ⟨proto, rest frame off e, 0, false, false⟩

section Headers

variable (ht : TransportAt ver proto off (min e frame.length))
include ht

theorem tcpHeader_infoAt : (infoAt frame packet total ip ipv6 proto off e).tcpHeader =
    if proto = Wd.ipprotoTcp ∧ 5 ≤ (frame.byte (off + 12) >>> 4).toNat then
      some (.decode (rest frame off e)) else none := by
  change (Wd.parseTransport ipv6.isSome proto (rest frame off e)).tcpHeader = _
  rw [Wd.tcpHeader_eq, length_rest]
  refine if_congr (and_congr_right fun hp => ?_) rfl rfl
  have := ht.tcp hp
  rw [byte_rest (by omega)]
  omega

theorem udpHeader_infoAt : (infoAt frame packet total ip ipv6 proto off e).udpHeader =
    if proto = Wd.ipprotoUdp then some (.decode (rest frame off e)) else none := by
  change (Wd.parseTransport ipv6.isSome proto (rest frame off e)).udpHeader = _
  rw [Wd.udpHeader_eq, length_rest]
  refine if_congr (and_iff_left_of_imp fun hp => ?_) rfl rfl
  have := ht.udp hp
  omega

variable (hv : ipv6.isSome = decide (ver = .v6))
include hv

theorem icmpHeader_infoAt : (infoAt frame packet total ip ipv6 proto off e).icmpHeader =
    if ver = .v4 ∧ proto = Wd.ipprotoIcmp then some (.decode (rest frame off e)) else none := by
  change (Wd.parseTransport ipv6.isSome proto (rest frame off e)).icmpHeader = _
  rw [Wd.icmpHeader_eq, length_rest, hv]
  have hver : decide (ver = .v6) = false ↔ ver = .v4 := by cases ver <;> decide
  simp only [hver]
  refine if_congr (and_iff_left_of_imp fun ⟨hv, hp⟩ => ?_) rfl rfl
  have := ht.icmp (by rw [hp, hv]; rfl)
  omega

theorem icmpv6Header_infoAt : (infoAt frame packet total ip ipv6 proto off e).icmpv6Header =
    if ver = .v6 ∧ proto = Wd.ipprotoIcmpv6 then some (.decode (rest frame off e)) else none := by
  change (Wd.parseTransport ipv6.isSome proto (rest frame off e)).icmpv6Header = _
  rw [Wd.icmpv6Header_eq, length_rest, hv]
  simp only [decide_eq_true_eq]
  refine if_congr (and_iff_left_of_imp fun ⟨hv, hp⟩ => ?_) rfl rfl
  have := ht.icmp (by rw [hp, hv]; rfl)
  omega

end Headers

-- A parsed packet that is no fragment and whose ports and flags have been read at an offset.
structure ReadsAt (pkt : Kernel.ParsedPacket) (frame : Bytes) (n : Nat) (v : IpVer) (p : BitVec 8)
    (off : Nat) : Prop where
  ver      : pkt.ver = v
  proto    : pkt.proto = p
  srcPort  : pkt.srcPort = (readAt frame n v p off).srcPort
  dstPort  : pkt.dstPort = (readAt frame n v p off).dstPort
  tcpFlags : pkt.tcpFlags = (readAt frame n v p off).tcpFlags
  fragment : pkt.fragment = false

section Ports

variable (hn : n ≤ frame.length) (hk : TransportAt ver proto o n)
variable (ht : TransportAt ver proto off (min e frame.length)) (hr : ReadsAt pkt frame n ver proto o)

include hn hk ht hr

theorem tcpPorts_iff : (∀ h ∈ (infoAt frame packet total ip ipv6 proto off e).tcpHeader,
    pkt.srcPort = h.srcPort ∧ pkt.dstPort = h.dstPort) ↔
    (proto = Wd.ipprotoTcp → 5 ≤ (frame.byte (off + 12) >>> 4).toNat →
      frame.be16 o = frame.be16 off ∧ frame.be16 (o + 2) = frame.be16 (off + 2)) := by
  rw [tcpHeader_infoAt ht, forall_mem_ite, and_imp]
  refine imp_congr_right fun hp => imp_congr_right fun _ => ?_
  have := ht.tcp hp
  rw [hr.srcPort, hr.dstPort, readAt_tcp hn hp (hk.tcp hp)]
  dsimp only [Wd.TcpHdr.decode]
  rw [be16_rest (by omega), be16_rest (by omega), Nat.add_zero]

theorem udpPorts_iff : (∀ h ∈ (infoAt frame packet total ip ipv6 proto off e).udpHeader,
    pkt.srcPort = h.srcPort ∧ pkt.dstPort = h.dstPort) ↔ (proto = Wd.ipprotoUdp →
      frame.be16 o = frame.be16 off ∧ frame.be16 (o + 2) = frame.be16 (off + 2)) := by
  rw [udpHeader_infoAt ht, forall_mem_ite]
  refine imp_congr_right fun hp => ?_
  have := ht.udp hp
  rw [hr.srcPort, hr.dstPort, readAt_udp hn hp (hk.udp hp)]
  dsimp only [Wd.UdpHdr.decode]
  rw [be16_rest (by omega), be16_rest (by omega), Nat.add_zero]

theorem icmpPorts_iff (hp : proto = icmpProto ver) :
    (pkt.srcPort = (Wd.IcmpHdr.decode (rest frame off e)).type.setWidth 16 ∧
      pkt.dstPort = (Wd.IcmpHdr.decode (rest frame off e)).code.setWidth 16) ↔
    (frame.byte o = frame.byte off ∧ frame.byte (o + 1) = frame.byte (off + 1)) := by
  have := ht.icmp hp
  rw [hr.srcPort, hr.dstPort, readAt_icmp hn hp (hk.icmp hp)]
  dsimp only [Wd.IcmpHdr.decode]
  rw [byte_rest (by omega), byte_rest (by omega), Nat.add_zero, setWidth_inj, setWidth_inj]

-- Ports are the same if they are read at the same place, or if the same bytes happen to be there.
theorem samePorts_iff (hv : ipv6.isSome = decide (ver = .v6)) :
    SamePorts pkt (infoAt frame packet total ip ipv6 proto off e) ↔
      SameStart frame ver proto o off := by
  have icmp : ((∀ h ∈ (infoAt frame packet total ip ipv6 proto off e).icmpHeader,
        pkt.srcPort = h.type.setWidth 16 ∧ pkt.dstPort = h.code.setWidth 16) ∧
      ∀ h ∈ (infoAt frame packet total ip ipv6 proto off e).icmpv6Header,
        pkt.srcPort = h.type.setWidth 16 ∧ pkt.dstPort = h.code.setWidth 16) ↔
      (proto = icmpProto ver →
        frame.byte o = frame.byte off ∧ frame.byte (o + 1) = frame.byte (off + 1)) := by
    rw [icmpHeader_infoAt ht hv, icmpv6Header_infoAt ht hv, forall_mem_ite, forall_mem_ite]
    cases ver
    case v4 => simpa [icmpProto] using imp_congr_right (icmpPorts_iff hn hk ht hr)
    case v6 => simpa [icmpProto] using imp_congr_right (icmpPorts_iff hn hk ht hr)
  constructor
  case mp =>
    intro h
    exact ⟨(tcpPorts_iff hn hk ht hr).mp h.tcp, (udpPorts_iff hn hk ht hr).mp h.udp,
      icmp.mp ⟨h.icmp, h.icmpv6⟩⟩
  case mpr =>
    intro h
    have ⟨h₄, h₆⟩ := icmp.mpr h.icmp
    exact ⟨hr.proto, (tcpPorts_iff hn hk ht hr).mpr h.tcp, (udpPorts_iff hn hk ht hr).mpr h.udp,
      h₄, h₆⟩

end Ports

end Transport

theorem TransportAt.mono {limit limit' : Nat} (h : TransportAt ver proto off limit)
    (hl : limit ≤ limit') : TransportAt ver proto off limit' where
  tcp hp  := (h.tcp hp).trans hl
  udp hp  := (h.udp hp).trans hl
  icmp hp := (h.icmp hp).trans hl

theorem toNet16_of_be32 {b : Bytes} {i : Nat} (h : i + 16 ≤ b.length) :
    (Words.of (b.be32 (i + 12)) (b.be32 (i + 8)) (b.be32 (i + 4)) (b.be32 i)).toNet16 =
      (b.drop i).take 16 := by
  have bytes {j : Nat} : [24, 16, 8, 0].map (fun s => (b.be32 j >>> s).setWidth 8) =
      (List.range 4).map fun k => b.byte (j + k) := by
    have hb {k : Nat} (hk : k ∈ List.range 4) :=
      Bytes.setWidth_be32 (b := b) (i := j) (List.mem_range.mp hk)
    rw [← List.map_congr_left fun _ => hb]
    rfl
  rw [Bytes.take_drop_eq h, Words.toNet16]
  simp only [List.flatMap_cons, List.flatMap_nil, Words.word_of, bytes]
  rfl

theorem agrees_infoAt (hn : n ≤ frame.length) (ht : TransportAt ver proto off (min n e))
    (ho : TcpOffset frame proto off) (hr : ReadsAt pkt frame n ver proto off)
    (h4 : ip.isSome = decide (ver = .v4)) (h6 : ipv6.isSome = decide (ver = .v6))
    (hip : ∀ h ∈ ip, pkt.srcIp = h.srcAddr ∧ pkt.dstIp = h.dstAddr ∧ pkt.ttl = h.ttl ∧
      pkt.proto = h.protocol)
    (hipv6 : ∀ h ∈ ipv6, pkt.srcIp6 = h.srcAddr.toNet16 ∧ pkt.dstIp6 = h.dstAddr.toNet16 ∧
      pkt.ttl = h.hopLimit) :
    Agrees pkt (infoAt frame packet total ip ipv6 proto off e) := by
  have hk : TransportAt ver proto off n := ht.mono (by omega)
  have ht : TransportAt ver proto off (min e frame.length) := ht.mono (by omega)
  refine { (samePorts_iff hn hk ht hr h6).mpr ⟨fun _ _ => ⟨rfl, rfl⟩, fun _ => ⟨rfl, rfl⟩,
    fun _ => ⟨rfl, rfl⟩⟩ with
    hasIp := ?_, hasIpv6 := ?_, hasTcp := ?_, hasUdp := ?_, hasIcmp := ?_, hasIcmpv6 := ?_
    fragment := ⟨hr.fragment, rfl⟩, ip := hip, ipv6 := hipv6, tcpFlags := ?_ }
  case refine_1 => rw [hr.ver]; exact h4 ▸ decide_eq_true_iff
  case refine_2 => rw [hr.ver]; exact h6 ▸ decide_eq_true_iff
  case refine_3 =>
    rw [tcpHeader_infoAt ht, hr.proto, Option.isSome_ite]
    exact and_iff_left_of_imp ho
  case refine_4 =>
    rw [udpHeader_infoAt ht, hr.proto, Option.isSome_ite]
  case refine_5 =>
    rw [icmpHeader_infoAt ht h6, hr.ver, hr.proto, Option.isSome_ite]
  case refine_6 =>
    rw [icmpv6Header_infoAt ht h6, hr.ver, hr.proto, Option.isSome_ite]
  case refine_7 =>
    rw [tcpHeader_infoAt ht, forall_mem_ite]
    rintro ⟨hp, _⟩
    have := ht.tcp hp
    rw [hr.tcpFlags, readAt_tcp hn hp (hk.tcp hp)]
    dsimp only [Wd.TcpHdr.decode]
    rw [byte_rest (by omega)]
    exact ⟨rfl, rfl, rfl, rfl, rfl, rfl⟩

theorem agrees_ipv4 (hn : n ≤ frame.length) (ht : TransportAt .v4 (frame.byte (off + 9)) o (min n e))
    (ho : TcpOffset frame (frame.byte (off + 9)) o)
    (hr : ReadsAt pkt frame n .v4 (frame.byte (off + 9)) o)
    (hs : pkt.srcIp = frame.be32 (off + 12)) (hd : pkt.dstIp = frame.be32 (off + 16))
    (hl : pkt.ttl = frame.byte (off + 8)) :
    Agrees pkt (infoAt frame packet total (some (.decode (frame.drop off))) none
      (frame.byte (off + 9)) o e) := by
  refine agrees_infoAt hn ht ho hr rfl rfl ?_ nofun
  rintro _ ⟨⟩
  simp [Wd.IpHdr.decode, hs, hd, hl, hr.proto]

theorem agrees_ipv6 (hn : n ≤ frame.length) (h : Ipv6At frame n off)
    (ht : TransportAt .v6 proto o (min n e)) (ho : TcpOffset frame proto o)
    (hr : ReadsAt pkt frame n .v6 proto o) (hs : pkt.srcIp6 = (frame.drop (off + 8)).take 16)
    (hd : pkt.dstIp6 = (frame.drop (off + 24)).take 16) (hl : pkt.ttl = frame.byte (off + 7)) :
    Agrees pkt (infoAt frame packet total none (some (.decode (frame.drop off))) proto o e) := by
  have hw := h.whole
  refine agrees_infoAt hn ht ho hr rfl rfl nofun ?_
  rintro _ ⟨⟩
  simp only [Wd.Ipv6Hdr.decode, Bytes.be32_drop, Bytes.byte_drop, hs, hd, hl]
  exact ⟨(toNet16_of_be32 (by omega)).symm, (toNet16_of_be32 (by omega)).symm, trivial⟩

-- What the evaluator finds at the end of a chain of extension headers.
theorem Chain.parsePacketEx (hc : Chain frame (frame.byte (off + 6)) (off + 40) hs proto off')
    (h : Ipv6At frame n off) (hu : IsUpper proto) (he : off' ≤ min n (end6 frame off))
    (hn : n ≤ frame.length) : Wd.parsePacketEx (frame.drop off) = some (infoAt frame
      (frame.drop off) ((frame.be16 (off + 4)).toNat + 40) none (some (.decode (frame.drop off)))
      proto off' (end6 frame off)) := by
  have hle := hc.le
  rw [h.parsePacketEx hn, hc.walk hu (by omega) (by rw [List.length_drop]; omega)]
  rfl

namespace ChainAt

variable (h : ChainAt frame n off hs proto off') (hn : n ≤ frame.length)
include h hn

theorem parsePacketEx : Wd.parsePacketEx (frame.drop off) = some (infoAt frame (frame.drop off)
    ((frame.be16 (off + 4)).toNat + 40) none (some (.decode (frame.drop off))) proto off'
    (end6 frame off)) :=
  h.chain.parsePacketEx h.ipv6 h.upper h.whole hn

variable (hf : Kernel.findL2 (frame.take n) = some off)
include hf

-- Where the packet programs follow the chain to its end, they see what the evaluator sees.
theorem agrees (ho : TcpOffset frame proto off') (hb : ∀ h ∈ hs, h.lenByte frame ≠ 255)
    (hk : hs.length ≤ Kernel.maxExtHeaders) (hs : ∀ h ∈ hs, ExtHdr.isSkippable h.proto) :
    ∃ pkt info, Kernel.parsePacket (frame.take n) = some pkt ∧
      Wd.parsePacketEx (frame.drop pkt.l2Len) = some info ∧ pkt.l2Len = off ∧ Agrees pkt info := by
  have hw := h.whole
  have hs := h.chain.skip h.upper hn (by omega) hb hs hk
  refine ⟨_, _, h.ipv6.parsePacket hn hf hs rfl, h.parsePacketEx hn, rfl, ?_⟩
  exact agrees_ipv6 hn h.ipv6 h.transport ho ⟨rfl, rfl, rfl, rfl, rfl, rfl⟩ rfl rfl rfl

end ChainAt

-- An IP packet without extension headers that is no fragment, with all of its headers among the
-- first `n` bytes of the frame and before the packet's own end.
inductive PacketAt (frame : Bytes) (n off : Nat) : Prop
  | v4 (h : Ipv4At frame n off)
    (ht : TransportAt .v4 (frame.byte (off + 9)) (off + hdrLen frame off) (min n (end4 frame off)))
    (ho : TcpOffset frame (frame.byte (off + 9)) (off + hdrLen frame off))
  | v6 (h : Ipv6At frame n off) (hu : IsUpper (frame.byte (off + 6)))
    (ht : TransportAt .v6 (frame.byte (off + 6)) (off + 40) (min n (end6 frame off)))
    (ho : TcpOffset frame (frame.byte (off + 6)) (off + 40))

theorem PacketAt.agrees (hp : PacketAt frame n off) (hl : Ethernet frame off) (hn : n ≤ frame.length) :
    ∃ pkt info, Kernel.parsePacket (frame.take n) = some pkt ∧
      Wd.parsePacketEx (frame.drop pkt.l2Len) = some info ∧ pkt.l2Len = off ∧ Agrees pkt info := by
  cases hp
  case v4 h ht ho =>
    have hf := hl.findL2 (by have := h.whole; omega) hn
    refine ⟨_, _, h.parsePacket hn hf, h.parsePacketEx hn, rfl, ?_⟩
    exact agrees_ipv4 hn ht ho ⟨rfl, rfl, rfl, rfl, rfl, rfl⟩ rfl rfl rfl
  case v6 h hu ht ho =>
    have hw := h.whole
    have he : off + 40 ≤ min n (end6 frame off) := by
      rw [end6]
      omega
    have hc : ChainAt frame n off [] _ _ := ⟨h, .nil, hu, he, ht⟩
    exact hc.agrees hn (hl.findL2 (by omega) hn) ho (by simp) (Nat.zero_le _) (by simp)

-- The packet programs see the packet that the evaluator sees.
theorem parsePacket_agrees (hl : Ethernet frame off) (hp : PacketAt frame n off)
    (hn : n ≤ frame.length) : ∃ pkt info, Kernel.parsePacket (frame.take n) = some pkt ∧
      Wd.parsePacketEx (frame.drop pkt.l2Len) = some info ∧ pkt.l2Len = off ∧ Agrees pkt info :=
  hp.agrees hl hn

-- A frame with a VLAN tag: UDP to port 53 behind an IPv4 header with options.
def taggedFrame : Bytes :=
  .replicate 12 2 ++ [0x81, 0, 0, 5, 0x08, 0] ++ [0x46, 0, 0, 32, 0, 0, 0x40, 0, 64, 17, 0, 0] ++
    [10, 0, 0, 1, 192, 0, 2, 1] ++ [1, 1, 1, 0] ++ [0xC0, 0, 0, 53, 0, 8, 0, 0]

theorem parsePacket_agrees_tagged : ∃ pkt info,
    Kernel.parsePacket (taggedFrame.take 50) = some pkt ∧
    Wd.parsePacketEx (taggedFrame.drop pkt.l2Len) = some info ∧ pkt.l2Len = 18 ∧ Agrees pkt info :=
  parsePacket_agrees (.vlan rfl rfl)
    (.v4 ⟨rfl, by decide, by decide, by decide, rfl⟩ ⟨nofun, by decide, nofun⟩ nofun) (by decide)

-- Where the packet programs stop in a chain of options: at the transport header, or at the first
-- header of 2048 bytes, which they do not get past. Only if it is the last one they have at least
-- the protocol of the transport header.
inductive Skipped (frame : Bytes) (hs : List ExtHdr) (proto' : BitVec 8) (off' : Nat) :
    Kernel.ExtState → Prop
  | done (hb : ∀ h ∈ hs, h.lenByte frame ≠ 255) : Skipped frame hs proto' off' ⟨proto', off', false⟩
  | last {h : ExtHdr} (hb : h.lenByte frame = 255) (hl : hs.getLast? = some h)
    (hx : ∀ h' ∈ hs, h'.lenByte frame = 255 → h' = h) (ho : h.off + 2048 ≤ off') :
    Skipped frame hs proto' off' ⟨proto', h.off, false⟩
  | early {h : ExtHdr} {proto : BitVec 8} (hm : h ∈ hs) (hb : h.lenByte frame = 255)
    (hl : hs.getLast? ≠ some h) (hx : ExtHdr.isExt proto) :
    Skipped frame hs proto' off' ⟨proto, h.off, false⟩

theorem Chain.off_le (hc : Chain frame proto off hs proto' off') : ∀ h ∈ hs, off ≤ h.off := by
  induction hc
  case nil => simp
  case cons proto _ off _ _ _ _ ih =>
    have := ExtHdr.eight_le_len frame ⟨proto, off⟩
    refine List.forall_mem_cons.mpr ⟨le_rfl, fun h hm => ?_⟩
    have := ih h hm
    omega

theorem Skipped.cons {s : Kernel.ExtState} {h : ExtHdr} (hb : h.lenByte frame ≠ 255)
    (hs' : Skipped frame hs proto' off' s) : Skipped frame (h :: hs) proto' off' s := by
  have last {h' : ExtHdr} (hm : h' ∈ hs) : (h :: hs).getLast? = hs.getLast? := by
    cases hs
    case nil  => simp at hm
    case cons => rfl
  cases hs'
  case done hbs => exact .done (List.forall_mem_cons.mpr ⟨hb, hbs⟩)
  case last hb' hl hx ho =>
    refine .last hb' ((last (List.mem_of_getLast? hl)).trans hl) ?_ ho
    exact List.forall_mem_cons.mpr ⟨fun h => absurd h hb, hx⟩
  case early hm hb' hl hx => exact .early (List.mem_cons_of_mem _ hm) hb' (last hm ▸ hl) hx

theorem Chain.skipped {k : Nat} (hc : Chain frame proto off hs proto' off') (hu : IsUpper proto')
    (hn : n ≤ frame.length) (he : off' ≤ n) (hw : ∀ h ∈ hs, ExtHdr.isSkippable h.proto)
    (hk : hs.length ≤ k) :
    ∃ s, Kernel.skipExtHeaders (frame.take n) k ⟨proto, off, false⟩ = some s ∧
      Skipped frame hs proto' off' s := by
  induction hc generalizing k
  case nil => exact ⟨_, Chain.skip .nil hu hn he nofun nofun (Nat.zero_le _), .done nofun⟩
  case cons proto _ off _ hs _ ht ih =>
    have ⟨(hp : ExtHdr.isSkippable proto), hws⟩ := List.forall_mem_cons.mp hw
    have hle := ht.le
    obtain _ | k := k
    case zero => simp at hk
    case succ =>
      by_cases hb : frame.byte (off + 1) = 255
      case neg =>
        rw [skipExtHeaders_short hp hn (by omega) hb]
        have hk : hs.length ≤ k := by simpa using hk
        have ⟨s, hs, hx⟩ := ih hu he hws hk
        exact ⟨s, hs, hx.cons hb⟩
      case pos =>
        have hlen : ExtHdr.len frame ⟨proto, off⟩ = 2048 := by
          rw [len_of_skippable (h := ⟨proto, off⟩) hp, ExtHdr.lenByte, hb]
          rfl
        cases ht
        case nil =>
          refine ⟨_, skipExtHeaders_stuck hp hn (by omega) hb hu.2,
            .last (h := ⟨proto, off⟩) hb rfl ?_ ?_⟩
          case refine_1 => simp
          case refine_2 => dsimp only; omega
        case cons hs hx ht =>
          have hx' := ne_fragment_of_ext hx
          refine ⟨_, skipExtHeaders_stuck hp hn (by omega) hb hx', .early (h := ⟨proto, off⟩)
            (by simp) hb ?_ hx⟩
          intro hl
          have := Chain.off_le (.cons hx ht) _ (List.mem_of_getLast? hl)
          dsimp only at this
          omega

def ipv6Frame (length : BitVec 16) (nextHdr : BitVec 8) (payload : Bytes) : Bytes :=
  let eth : Bytes := .replicate 12 2 ++ [0x86, 0xDD]
  let ip6 : Bytes := [0x60, 0, 0, 0, (length >>> 8).setWidth 8, length.setWidth 8, nextHdr, 64]
  eth ++ ip6 ++ .replicate 32 1 ++ payload

-- UDP to port 53 behind a header of hop-by-hop options.
def optionsFrame : Bytes :=
  ipv6Frame 16 0 ([17, 0, 0, 0, 0, 0, 0, 0] ++ [0xC0, 0, 0, 53, 0, 8, 0, 0])

-- The same with a header of 2048 bytes, which is as long as one can be.
def longFrame : Bytes :=
  ipv6Frame 2056 0 ([17, 255] ++ .replicate 2046 0 ++ [0xC0, 0, 0, 53, 0, 8, 0, 0])

end Wire
