import EbpfDivert.Kernel.Flows
import EbpfDivert.Wire.Basic

open Shared

-- A UDP packet that starts with its IP header, and the offset of its UDP header. Of fragments only
-- the first one has such a header.
inductive Wire.UdpAt (pkt : Bytes) : IpVer → Nat → Prop
  | v4 (hv : pkt.byte 0 >>> 4 = 4) (hl : 20 ≤ hdrLen pkt 0) (hf : pkt.be16 6 &&& 0x1FFF = 0)
    (hp : pkt.byte 9 = Wd.ipprotoUdp) (hw : hdrLen pkt 0 + 8 ≤ pkt.length) : UdpAt pkt .v4 (hdrLen pkt 0)
  | v6 {hs : List ExtHdr} {off : Nat} (hv : pkt.byte 0 >>> 4 = 6)
    (hc : Chain pkt (pkt.byte 6) 40 hs Wd.ipprotoUdp off) (hw : off + 8 ≤ pkt.length) : UdpAt pkt .v6 off

theorem Wire.hdrLen_and (frame : Bytes) (off : Nat) : hdrLen frame off &&& 0xFF = hdrLen frame off := by
  have h : (frame.byte off &&& 0x0F).toNat ≤ 15 := by
    rw [BitVec.toNat_and]
    exact Nat.and_le_right
  have : hdrLen frame off ≤ 60 := Nat.mul_le_mul_right 4 h
  exact (Nat.and_two_pow_sub_one_eq_mod _ 8).trans <| Nat.mod_eq_of_lt (by omega)

-- The addresses of a packet, those of IPv4 as `::ffff:a.b.c.d`.
def Wire.srcAddr (ver : IpVer) (pkt : Bytes) : Bytes :=
  match ver with
  | .v4 => Kernel.v4Mapped ((pkt.drop 12).take 4)
  | .v6 => (pkt.drop 8).take 16

def Wire.dstAddr (ver : IpVer) (pkt : Bytes) : Bytes :=
  match ver with
  | .v4 => Kernel.v4Mapped ((pkt.drop 16).take 4)
  | .v6 => (pkt.drop 24).take 16

namespace Kernel

section Header

variable {data : Bytes} {ver : IpVer} {off : Nat} (h : Wire.UdpAt data ver off)
include h

-- Extension headers of IPv6 are not skipped.
theorem udpHeader_eq (hr : ver = .v6 → data.byte 6 = Wd.ipprotoUdp) :
    udpHeader data = some (ver.code, Wire.srcAddr ver data, Wire.dstAddr ver data, off) ∧
      off &&& 0xFF = off := by
  cases h
  case v4 hv hl hf hp hw =>
    have hn : ¬(data.length < 20 ∨ data.byte 9 ≠ Wd.ipprotoUdp ∨ data.be16 6 &&& 0x1FFF ≠ 0) := by
      rintro (hn | hn | hn)
      case inl     => omega
      case inr.inl => exact hn hp
      case inr.inr => exact hn hf
    rw [udpHeader, if_neg (by omega), if_pos hv, if_neg hn]
    exact ⟨rfl, Wire.hdrLen_and data 0⟩
  case v6 hv hc hw =>
    have hr := hr rfl
    rw [hr] at hc
    cases hc
    case cons he _ => exact absurd he (by decide)
    case nil =>
      have hn : ¬(data.length < 40 ∨ data.byte 6 ≠ Wd.ipprotoUdp) := by
        rintro (hn | hn)
        case inl => omega
        case inr => exact hn hr
      rw [udpHeader, if_neg (by omega), if_neg (by rw [hv]; decide), if_pos hv, if_neg hn]
      exact ⟨rfl, rfl⟩

theorem udpHeader_eq_none (hv : ver = .v6) (hr : data.byte 6 ≠ Wd.ipprotoUdp) :
    udpHeader data = none := by
  cases h
  case v4 => cases hv
  case v6 hv' _ _ =>
    have h4 : ¬data.byte 0 >>> 4 = 4 := by rw [hv']; decide
    simp only [udpHeader, if_neg h4, if_pos hv', if_pos (Or.inr hr), ite_self]

end Header

-- What distinguishes UDP flows.
structure UdpTuple where
  cookie     : BitVec 64
  localAddr  : Bytes
  localPort  : BitVec 16
  remoteAddr : Bytes
  remotePort : BitVec 16
deriving DecidableEq

-- All of it but the local address.
def UdpTuple.key (t : UdpTuple) : UdpFlowKey :=
  ⟨t.cookie, t.remoteAddr, t.remotePort, t.localPort⟩

-- A UDP packet of a socket while a handle of the flow layer is live. The map has not displaced an
-- entry and the ring has room.
structure UdpPacket where
  env     : SockEnv
  evicted : List UdpFlowKey
  cfg     : EventConfig
  data    : Bytes
  sk      : SkbSock
  egress  : Bool
  ver     : IpVer
  off     : Nat
  udp     : Wire.UdpAt data ver off
  full    : sk.full
  live    : liveConfig cfg env.now = some cfg
  flow    : Flags.has cfg.flags evcfgSocket = false
  kept    : evicted = []
  room    : env.reserveOk

namespace UdpPacket

variable {p q : UdpPacket} {ps : List UdpPacket} {flows : List UdpFlowKey} {e : DivertEvent}

def tuple (p : UdpPacket) : UdpTuple :=
  let src := Wire.srcAddr p.ver p.data
  let dst := Wire.dstAddr p.ver p.data
  if p.egress then ⟨p.env.cookie, src, p.data.be16 p.off, dst, p.data.be16 (p.off + 2)⟩
  else ⟨p.env.cookie, dst, p.data.be16 (p.off + 2), src, p.data.be16 p.off⟩

-- The packet of a UDP socket, and not of a raw one, whose UDP header comes right after the IP header.
def Readable (p : UdpPacket) : Prop :=
  p.sk.protocol = Wd.ipprotoUdp.setWidth 32 ∧ (p.ver = .v6 → p.data.byte 6 = Wd.ipprotoUdp)

def run (p : UdpPacket) (flows : List UdpFlowKey) : FlowOutcome :=
  udpFlow p.env p.evicted p.cfg ⟨p.data, some p.sk⟩ p.egress flows

-- The event that reports the flow of a packet.
structure Reports (p : UdpPacket) (e : DivertEvent) : Prop where
  event : e.event = eventFlowEstablished
  proto : e.protocol = Wd.ipprotoUdp
  tuple : p.tuple = ⟨e.endpointId, e.localAddr, e.localPort, e.remoteAddr, e.remotePort⟩

theorem length_ge (p : UdpPacket) : p.off + 8 ≤ p.data.length := by
  obtain ⟨_, _, _, data, _, _, ver, off, udp, _⟩ := p
  cases udp
  case v4 hw => exact hw
  case v6 hw => exact hw

theorem udpEndpoints_eq (h : p.Readable) : ∃ family, udpEndpoints p.data p.egress =
    some ⟨family, p.tuple.localAddr, p.tuple.remoteAddr, p.tuple.localPort, p.tuple.remotePort⟩ := by
  have ⟨hu, ho⟩ := udpHeader_eq p.udp h.right
  have hl := p.length_ge
  refine ⟨p.ver.code, ?_⟩
  rw [udpEndpoints, hu, Option.bind_eq_bind, Option.bind_some]
  simp only [ho]
  rw [if_neg (by omega)]
  cases he : p.egress <;> simp [tuple, he]

theorem run_readable (h : p.Readable) (flows : List UdpFlowKey) : ∃ family,
    p.run flows = reportFlow p.env [] p.sk.info
      ⟨family, p.tuple.localAddr, p.tuple.remoteAddr, p.tuple.localPort, p.tuple.remotePort⟩ flows := by
  have ⟨family, he⟩ := udpEndpoints_eq h
  exists family
  simp [run, udpFlow, p.live, p.flow, p.full, h.left, he, p.kept]

theorem cookie_tuple : p.tuple.cookie = p.env.cookie := by
  rw [tuple]
  split_ifs <;> rfl

theorem key_tuple : p.tuple.key =
    ⟨p.env.cookie, p.tuple.remoteAddr, p.tuple.remotePort, p.tuple.localPort⟩ := by
  rw [UdpTuple.key, cookie_tuple]

theorem run_unreadable (h : ¬p.Readable) :
    (p.run flows).event = none ∧ (p.run flows).flows = flows := by
  rw [run, udpFlow, p.live]
  by_cases hp : p.sk.protocol = Wd.ipprotoUdp.setWidth 32
  case neg => simp [p.flow, hp]
  case pos =>
    have hn : ¬(p.ver = .v6 → p.data.byte 6 = Wd.ipprotoUdp) := fun hr => h ⟨hp, hr⟩
    have ⟨hv, hb⟩ := Classical.not_imp.mp hn
    have he : udpEndpoints p.data p.egress = none := by
      rw [udpEndpoints, udpHeader_eq_none p.udp hv hb]
      rfl
    simp [p.flow, p.full, hp, he]

-- A flow that is known is not reported again.
theorem run_known (hk : p.tuple.key ∈ flows) :
    (p.run flows).event = none ∧ (p.run flows).flows = flows := by
  by_cases h : p.Readable
  case neg => exact run_unreadable h
  case pos =>
    have ⟨family, hr⟩ := run_readable h flows
    rw [hr, reportFlow, if_pos (key_tuple ▸ hk)]
    exact ⟨rfl, rfl⟩

theorem run_new (h : p.Readable) (hk : p.tuple.key ∉ flows) :
    (∃ e, (p.run flows).event = some e ∧ p.Reports e) ∧ (p.run flows).flows = p.tuple.key :: flows := by
  have ⟨family, hr⟩ := run_readable h flows
  rw [hr, reportFlow, if_neg (key_tuple ▸ hk)]
  refine ⟨⟨_, if_pos p.room, rfl, rfl, ?_⟩, by simp [updateFlows, key_tuple]⟩
  rw [← cookie_tuple]

-- The map after some packets, the last one first.
def flowsAfter : List UdpPacket → List UdpFlowKey
  | []      => []
  | p :: ps => (p.run (flowsAfter ps)).flows

-- The first packet of its flow.
def First (p : UdpPacket) (ps : List UdpPacket) : Prop :=
  ∀ q ∈ ps, q.tuple ≠ p.tuple

structure ReportedOnce (p : UdpPacket) (ps : List UdpPacket) : Prop where
  first : p.First ps → ∃ e, (p.run (flowsAfter ps)).event = some e ∧ p.Reports e
  later : ¬p.First ps → (p.run (flowsAfter ps)).event = none

-- The flow can be told apart from those before it.
def Apart (p : UdpPacket) (ps : List UdpPacket) : Prop :=
  p.First ps → p.Readable ∧ ∀ q ∈ ps, q.tuple.key ≠ p.tuple.key

-- The map holds the keys of all packets so far.
def Known (ps : List UdpPacket) : Prop :=
  ∀ key, key ∈ flowsAfter ps ↔ ∃ q ∈ ps, q.tuple.key = key

theorem Known.of_not_first (hn : Known ps) (hf : ¬p.First ps) : p.tuple.key ∈ flowsAfter ps := by
  obtain ⟨q, hq, ht⟩ : ∃ q ∈ ps, q.tuple = p.tuple := by simpa [First] using hf
  exact (hn _).mpr ⟨q, hq, by rw [ht]⟩

theorem Known.not_mem_iff (hn : Known ps) :
    p.tuple.key ∉ flowsAfter ps ↔ ∀ q ∈ ps, q.tuple.key ≠ p.tuple.key := by
  rw [hn]
  simp

theorem Known.reportedOnce_iff (hn : Known ps) : p.ReportedOnce ps ↔ p.Apart ps := by
  by_cases hf : p.First ps
  case neg =>
    have hk := run_known (hn.of_not_first hf)
    exact ⟨fun _ h => absurd h hf, fun _ => ⟨fun h => absurd h hf, fun _ => hk.left⟩⟩
  case pos =>
    rw [Apart, ← hn.not_mem_iff]
    constructor
    case mp =>
      intro h _
      have ⟨e, he, _⟩ := h.first hf
      constructor
      case left =>
        by_contra hr
        simp [run_unreadable hr] at he
      case right =>
        intro hk
        simp [run_known hk] at he
    case mpr =>
      intro h
      have ⟨hr, hk⟩ := h hf
      exact ⟨fun _ => (run_new hr hk).left, fun h => absurd hf h⟩

theorem Known.cons (hn : Known ps) (h : p.Apart ps) : Known (p :: ps) := by
  intro key
  rw [flowsAfter]
  by_cases hf : p.First ps
  case neg =>
    have hk := hn.of_not_first hf
    rw [(run_known hk).right, hn key]
    have := (hn _).mp hk
    grind
  case pos =>
    have ⟨hr, hk⟩ := h hf
    rw [(run_new hr (hn.not_mem_iff.mpr hk)).right, List.mem_cons, hn key]
    simp [eq_comm]

theorem known_of_apart (h : ∀ p ps', p :: ps' <:+ ps → p.Apart ps') : Known ps := by
  induction ps
  case nil => intro key; simp [flowsAfter]
  case cons p ps ih =>
    exact (ih fun q ps' hs => h q ps' <| hs.trans <| List.suffix_cons p ps).cons <| h p ps List.suffix_rfl

end UdpPacket

-- Every flow is reported once as long as no two of them differ in their local address only and the
-- first packet of each can be read.
theorem udpFlow_reports_once_iff (ps : List UdpPacket) :
    (∀ p ps', p :: ps' <:+ ps → p.ReportedOnce ps') ↔
      ∀ p ps', p :: ps' <:+ ps → (∀ q ∈ ps', q.tuple ≠ p.tuple) →
        p.Readable ∧ ∀ q ∈ ps', q.tuple.key ≠ p.tuple.key := by
  induction ps
  case nil => simp
  case cons p ps ih =>
    have key (hn : UdpPacket.Known ps) := hn.reportedOnce_iff (p := p)
    constructor
    case mp =>
      intro h q ps' hs
      have ha := ih.mp fun q ps' hs => h q ps' <| hs.trans <| List.suffix_cons p ps
      rcases List.suffix_cons_iff.mp hs with he | hs
      case inl =>
        cases he
        exact (key (UdpPacket.known_of_apart ha)).mp <| h p ps List.suffix_rfl
      case inr => exact ha q ps' hs
    case mpr =>
      intro h q ps' hs
      have ha q ps' hs := h q ps' <| List.IsSuffix.trans hs <| List.suffix_cons p ps
      rcases List.suffix_cons_iff.mp hs with he | hs
      case inl =>
        cases he
        exact (key (UdpPacket.known_of_apart ha)).mpr <| h p ps List.suffix_rfl
      case inr => exact ih.mpr ha q ps' hs

-- A datagram from port 53 of another host to port 5000 of one of this host's addresses.
def datagram (host : BitVec 8) : Bytes :=
  [0x45, 0, 0, 28, 0, 0, 0, 0, 64, 17, 0, 0, 192, 0, 2, 1, 198, 51, 100, host,
    0, 53, 0x13, 0x88, 0, 8, 0, 0]

theorem udpAt_datagram {host : BitVec 8} :
    Wire.UdpAt (datagram host) .v4 (Wire.hdrLen (datagram host) 0) := by
  have h : Wire.hdrLen (datagram host) 0 = 20 := by simp [Wire.hdrLen, datagram, Bytes.byte]
  refine .v4 ?_ h.ge ?_ ?_ (h ▸ Nat.le_refl 28) <;>
    simp [datagram, Bytes.byte, Bytes.be16, Wd.ipprotoUdp]

-- It is received by a socket that is bound to all of them.
def received (host : BitVec 8) : UdpPacket where
  env     := ⟨1000, 1000, 7, 0, true, true⟩
  evicted := []
  cfg     := ⟨0, 0, 0⟩
  data    := datagram host
  sk      := ⟨true, Wd.ipprotoUdp.setWidth 32, none⟩
  egress  := false
  ver     := .v4
  off     := Wire.hdrLen (datagram host) 0
  udp     := udpAt_datagram
  full    := rfl
  live    := rfl
  flow    := rfl
  kept    := rfl
  room    := rfl

theorem udpFlow_misses_local_address : (received 3).First [received 2] ∧
    ((received 3).run (UdpPacket.flowsAfter [received 2])).event = none :=
  ⟨fun _ hq => List.mem_singleton.mp hq ▸ by decide, rfl⟩

end Kernel
