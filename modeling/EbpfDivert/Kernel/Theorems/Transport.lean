import EbpfDivert.Kernel.Theorems.Parse

open Shared

-- Where the transport header of a packet is and what the parser reads from it.
namespace Kernel

variable {data : Bytes} {ver ver' : IpVer} {proto proto' : BitVec 8} {off off' : Nat}
variable {pkt : ParsedPacket}

-- The protocol of a packet and the offset of its transport header.
inductive TransportAt (data : Bytes) : IpVer → BitVec 8 → Nat → Prop
  | v4 {l2Len} (hl : findL2 data = some l2Len) (hv : data.byte l2Len >>> 4 = 4) :
    TransportAt data .v4 (data.byte (l2Len + 9)) (l2Len + (data.byte l2Len &&& 0x0F).toNat * 4)
  | v6 {l2Len s} (hl : findL2 data = some l2Len) (hv : data.byte l2Len >>> 4 = 6)
    (hs : skipExtHeaders data maxExtHeaders ⟨data.byte (l2Len + 6), l2Len + 40, false⟩ = some s) :
    TransportAt data .v6 s.nexthdr s.off

theorem TransportAt.unique (h : TransportAt data ver proto off)
    (h' : TransportAt data ver' proto' off') : ver = ver' ∧ proto = proto' ∧ off = off' := by
  rcases h with ⟨hl, hv⟩ | ⟨hl, hv, hs⟩
  all_goals
    rcases h' with ⟨hl', hv'⟩ | ⟨hl', hv', hs'⟩
    all_goals cases hl.symm.trans hl'
  case v4.v4 => exact ⟨rfl, rfl, rfl⟩
  case v4.v6 => exact absurd (hv.symm.trans hv') (by decide)
  case v6.v4 => exact absurd (hv.symm.trans hv') (by decide)
  case v6.v6 =>
    cases hs.symm.trans hs'
    exact ⟨rfl, rfl, rfl⟩

def icmpNumber : IpVer → BitVec 8
  | .v4 => 1
  | .v6 => 58

-- How much of the transport header the parser wants to see.
def transportLen (ver : IpVer) (proto : BitVec 8) : Nat :=
  if proto = 6 then 20 else if proto = 17 ∨ proto = icmpNumber ver then 8 else 0

-- The transport header is complete.
def Complete (data : Bytes) : Prop :=
  ∀ ver proto off, TransportAt data ver proto off → off + transportLen ver proto ≤ data.length

-- An ICMP message of this type and code.
def IsIcmp (data : Bytes) (ver : IpVer) (type code : BitVec 8) : Prop :=
  ∃ off, TransportAt data ver (icmpNumber ver) off ∧ data.byte off = type ∧
    data.byte (off + 1) = code

theorem IsIcmp.unique {type code type' code' : BitVec 8} (h : IsIcmp data ver type code)
    (h' : IsIcmp data ver type' code') : type = type' ∧ code = code' := by
  obtain ⟨off, ht, rfl, rfl⟩ := h
  obtain ⟨off', ht', rfl, rfl⟩ := h'
  obtain ⟨_, _, rfl⟩ := ht.unique ht'
  exact ⟨rfl, rfl⟩

-- The parser reads the transport header of every packet that is not a fragment.
theorem parsePacket_transport (h : parsePacket data = some pkt) (hf : pkt.fragment = false) :
    ∃ off, TransportAt data pkt.ver pkt.proto off ∧
      pkt.srcPort = (readTransport data off pkt.proto (icmpNumber pkt.ver)).srcPort ∧
      pkt.dstPort = (readTransport data off pkt.proto (icmpNumber pkt.ver)).dstPort := by
  simp only [parsePacket, Option.bind_eq_bind, Option.bind_eq_some_iff] at h
  obtain ⟨l2Len, hl, h⟩ := h
  split_ifs at h with _ h4 h6
  case pos =>
    simp only [parseIpv4] at h
    split_ifs at h with _ _ ho
    all_goals cases h
    case pos =>
      have hf : data.be16 (l2Len + 6) &&& 0x3FFF = 0 := by simpa using hf
      refine absurd ?_ ho
      calc
        data.be16 (l2Len + 6) &&& 0x1FFF = data.be16 (l2Len + 6) &&& 0x3FFF &&& 0x1FFF := by
          rw [BitVec.and_assoc]
          rfl
        _ = 0 := by rw [hf]; rfl
    case neg => exact ⟨_, .v4 hl h4, rfl, rfl⟩
  case pos =>
    simp only [parseIpv6, Option.bind_eq_bind] at h
    split_ifs at h
    obtain ⟨s, hs, h⟩ := Option.bind_eq_some_iff.mp h
    cases h
    have hf : s.fragment = false := hf
    exact ⟨s.off, .v6 hl h6 hs, by simp [hf, icmpNumber], by simp [hf, icmpNumber]⟩

-- The type and the code of an ICMP message are where other protocols have their ports.
theorem readTransport_icmp (h : TransportAt data ver (icmpNumber ver) off) (hc : Complete data) :
    readTransport data off (icmpNumber ver) (icmpNumber ver) =
      ⟨(data.byte off).setWidth 16, (data.byte (off + 1)).setWidth 16, 0⟩ := by
  have hl := hc _ _ _ h
  cases ver <;> simp_all [readTransport, transportLen, icmpNumber]

end Kernel
