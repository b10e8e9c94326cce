import EbpfDivert.Kernel.Process
import EbpfDivert.Kernel.Theorems.Parse
import Mathlib.Tactic.MkIffOfInductiveProp

open Shared

-- Packets of devices without a link header: the frame is the IP packet.
namespace Kernel

variable {data frame : Bytes} {n off : Nat} {ver : IpVer} {proto : BitVec 8} {pkt : ParsedPacket}
variable {skb : Skb}

-- A whole IPv4 header, or an IPv6 header that no extension header follows.
inductive RawIp (frame : Bytes) : IpVer → BitVec 8 → Prop
  | v4 (ver : frame.byte 0 >>> 4 = 4) (ihl : 5 ≤ (frame.byte 0 &&& 0x0F).toNat)
    (whole : (frame.byte 0 &&& 0x0F).toNat * 4 ≤ frame.length) : RawIp frame .v4 (frame.byte 9)
  | v6 (ver : frame.byte 0 >>> 4 = 6) (whole : 40 ≤ frame.length)
    (plain : isExtHeader (frame.byte 6) = false) : RawIp frame .v6 (frame.byte 6)

-- The packet has been read at the start of the frame, as what it is.
@[mk_iff]
structure ReadRaw (frame : Bytes) (ver : IpVer) (proto : BitVec 8) (pkt : ParsedPacket) : Prop where
  l2Len : pkt.l2Len = 0
  isVer : pkt.ver = ver
  proto : pkt.proto = proto
  addr4 : ver = .v4 → pkt.srcIp = frame.be32 12 ∧ pkt.dstIp = frame.be32 16
  addr6 : ver = .v6 → pkt.srcIp6 = (frame.drop 8).take 16 ∧ pkt.dstIp6 = (frame.drop 24).take 16

-- The source address of the packet reads like the EtherType of an Ethernet frame, or like the VLAN
-- tags of one.
def MistakenForEthernet (frame : Bytes) : Prop :=
  isIpType (frame.be16 12) ∨ isVlanType (frame.be16 12) ∧
    (isIpType (frame.be16 16) ∨
      frame.be16 16 = 0x8100 ∧ 22 ≤ frame.length ∧ isIpType (frame.be16 20))

instance : Decidable (MistakenForEthernet frame) :=
  inferInstanceAs (Decidable (_ ∨ _))

theorem RawIp.length_le (h : RawIp frame ver proto) : 20 ≤ frame.length := by
  cases h <;> omega

-- All that is read of the header lies in the part that has been pulled.
theorem RawIp.take (h : RawIp frame ver proto) (hn : min frame.length 128 ≤ n) :
    RawIp (frame.take n) ver proto := by
  have hl := h.length_le
  have hlen : (frame.take n).length = min n frame.length := List.length_take
  have h₀ : Bytes.byte (frame.take n) 0 = frame.byte 0 := Bytes.byte_take (by omega)
  cases h
  case v4 hv hi hw =>
    have hb : (frame.byte 0 &&& 0x0F).toNat ≤ 15 := by
      rw [BitVec.toNat_and]
      exact Nat.and_le_right
    have h₉ : Bytes.byte (frame.take n) 9 = frame.byte 9 := Bytes.byte_take (by omega)
    rw [← h₉]
    exact .v4 (by rw [h₀, hv]) (by rwa [h₀]) (by rw [h₀, hlen]; omega)
  case v6 hv hw he =>
    have h₆ : Bytes.byte (frame.take n) 6 = frame.byte 6 := Bytes.byte_take (by omega)
    rw [← h₆]
    exact .v6 (by rw [h₀, hv]) (by omega) (by rwa [h₆])

theorem mistakenForEthernet_take (hl : 20 ≤ frame.length) (hn : min frame.length 128 ≤ n) :
    MistakenForEthernet (frame.take n) ↔ MistakenForEthernet frame := by
  have hlen : (frame.take n).length = min n frame.length := List.length_take
  have h₂₂ : 22 ≤ min n frame.length ↔ 22 ≤ frame.length := by omega
  simp only [MistakenForEthernet, hlen, h₂₂, Bytes.be16_take (show 12 + 2 ≤ n by omega),
    Bytes.be16_take (show 16 + 2 ≤ n by omega)]
  by_cases h : 22 ≤ frame.length
  case pos => rw [Bytes.be16_take (show 20 + 2 ≤ n by omega)]
  case neg => simp only [h, false_and]

theorem ethernetLen_eq_none (hl : 20 ≤ data.length) :
    ethernetLen data = none ↔ ¬MistakenForEthernet data := by
  grind [ethernetLen, MistakenForEthernet]

theorem ethernetLen_pos (h : ethernetLen data = some off) : 14 ≤ off := by
  grind [ethernetLen]

theorem RawIp.guessLen (h : RawIp data ver proto) : guessLen data 0 = some 0 := by
  refine if_pos ⟨h.length_le, ?_⟩
  cases h <;> simp_all [isIpVersion]

theorem RawIp.parsePacket (h : RawIp data ver proto) (he : ethernetLen data = none) :
    ∃ pkt, parsePacket data = some pkt ∧ ReadRaw data ver proto pkt := by
  have hl := h.length_le
  have hf : findL2 data = some 0 := by rw [findL2, he, h.guessLen, Option.none_or, Option.some_or]
  simp only [Kernel.parsePacket, hf, Option.bind_eq_bind, Option.bind_some, Nat.zero_add]
  rw [if_neg (by omega)]
  cases h
  case v4 hv hi _ =>
    rw [if_pos hv, parseIpv4, if_neg (by omega), if_neg (by omega)]
    exact ⟨_, rfl, rfl, rfl, rfl, fun _ => ⟨rfl, rfl⟩, by simp⟩
  case v6 hv hw hp =>
    have hs : skipExtHeaders data maxExtHeaders ⟨data.byte (0 + 6), 0 + 40, false⟩ =
        some ⟨data.byte 6, 40, false⟩ := by
      simp [maxExtHeaders, skipExtHeaders, hp]
    rw [if_neg (by rw [hv]; decide), if_pos hv, parseIpv6, if_neg (by omega), hs]
    exact ⟨_, rfl, rfl, rfl, rfl, by simp, fun _ => ⟨rfl, rfl⟩⟩

-- An EtherType in the source address always wins.
theorem RawIp.parsePacket_iff (h : RawIp data ver proto) :
    (∃ pkt, Kernel.parsePacket data = some pkt ∧ ReadRaw data ver proto pkt) ↔
      ¬MistakenForEthernet data := by
  rw [← ethernetLen_eq_none h.length_le]
  constructor
  case mpr => exact h.parsePacket
  case mp =>
    rintro ⟨pkt, hp, hr⟩
    have hf := (parsePacket_eq_some hp).1
    cases he : ethernetLen data
    case none => rfl
    case some off =>
      have ho := ethernetLen_pos he
      rw [findL2, he, Option.some_or, hr.l2Len, Option.some.injEq] at hf
      omega

theorem ReadRaw.take_iff (h : RawIp frame ver proto) (hn : min frame.length 128 ≤ n) :
    ReadRaw (frame.take n) ver proto pkt ↔ ReadRaw frame ver proto pkt := by
  have hl := h.length_le
  cases h
  case v4 =>
    simp only [readRaw_iff, reduceCtorEq, false_implies, Bytes.be32_take (show 12 + 4 ≤ n by omega),
      Bytes.be32_take (show 16 + 4 ≤ n by omega)]
  case v6 hw _ =>
    simp only [readRaw_iff, reduceCtorEq, false_implies,
      Bytes.take_drop_take (show 8 + 16 ≤ n by omega),
      Bytes.take_drop_take (show 24 + 16 ≤ n by omega)]

-- A packet is read as what it is unless its source address is, say, in 8.0.0.0/16.
theorem parsePacket_rawIp_iff (h : RawIp skb.bytes ver proto) :
    (∃ pkt, parsePacket skb.pulled = some pkt ∧ ReadRaw skb.bytes ver proto pkt) ↔
      ¬MistakenForEthernet skb.bytes := by
  have hn : min skb.bytes.length 128 ≤ max skb.headLen (min skb.len 128) := Nat.le_max_right ..
  rw [← mistakenForEthernet_take h.length_le hn, ← (h.take hn).parsePacket_iff, Skb.pulled]
  simp only [ReadRaw.take_iff h hn]

theorem parsePacket_rawIp_iff_private :
    let bytes : Bytes := [0x45, 0, 0, 20, 0, 0, 0, 0, 64, 17, 0, 0, 10, 0, 0, 1, 10, 0, 0, 2]
    let skb : Skb := ⟨bytes, 20, by decide, 3, 0, 0, 0, 0, 0⟩
    RawIp bytes .v4 17 ∧ ¬MistakenForEthernet bytes ∧
      ∃ pkt, parsePacket skb.pulled = some pkt ∧ ReadRaw bytes .v4 17 pkt := by
  intro bytes skb
  have h : RawIp skb.bytes .v4 17 := .v4 (by decide) (by decide) (by decide)
  have hm : ¬MistakenForEthernet bytes := by decide
  exact ⟨h, hm, (parsePacket_rawIp_iff h).mpr hm⟩

-- A packet from 8.0.0.1 is taken for an Ethernet frame whose IP header is missing.
theorem rawIp_unparsed :
    let bytes : Bytes := [0x45, 0, 0, 20, 0, 0, 0, 0, 64, 17, 0, 0, 8, 0, 0, 1, 10, 0, 0, 2]
    let skb : Skb := ⟨bytes, 20, by decide, 3, 0, 0, 0, 0, 0⟩
    RawIp bytes .v4 17 ∧ parsePacket skb.pulled = none := by
  exact ⟨.v4 (by decide) (by decide) (by decide), by decide⟩

end Kernel
