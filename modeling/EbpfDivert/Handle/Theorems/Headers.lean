import EbpfDivert.Handle.Theorems.Sound

open Shared Prefilter Kernel

namespace Wire

variable {pkt : ParsedPacket} {off e n total limit : Nat} {proto q : BitVec 8} {frame packet : Bytes}
variable {ver : IpVer} {ip : Option Wd.IpHdr} {ipv6 : Option Wd.Ipv6Hdr}

theorem transportAt_tcp :
    TransportAt ver Wd.ipprotoTcp off limit ↔ off + 20 ≤ limit := by
  refine ⟨(·.tcp rfl), fun h => ⟨fun _ => h, fun hp => absurd hp (by decide), fun hp => ?_⟩⟩
  exact absurd hp (by cases ver <;> decide)

theorem transportAt_udp :
    TransportAt ver Wd.ipprotoUdp off limit ↔ off + 8 ≤ limit := by
  refine ⟨(·.udp rfl), fun h => ⟨fun hp => absurd hp (by decide), fun _ => h, fun hp => ?_⟩⟩
  exact absurd hp (by cases ver <;> decide)

theorem transportAt_icmp :
    TransportAt ver (icmpProto ver) off limit ↔ off + 8 ≤ limit := by
  refine ⟨(·.icmp rfl), fun h => ⟨fun hp => ?_, fun hp => ?_, fun _ => h⟩⟩
  case refine_1 => exact absurd hp (by cases ver <;> decide)
  case refine_2 => exact absurd hp (by cases ver <;> decide)

theorem tcpOffset_of_ne (hp : proto ≠ Wd.ipprotoTcp) : TcpOffset frame proto off :=
  fun h => absurd h hp

-- Without a header to look for neither parser reads anything.
theorem transportAt_of_none (hp : ¬HasTransport ver proto) :
    TransportAt ver proto off limit := by
  simp only [HasTransport, not_or] at hp
  exact ⟨fun h => absurd h hp.1, fun h => absurd h hp.2.1, fun h => absurd h hp.2.2⟩

theorem tcpOffset_of_none (hp : ¬HasTransport ver proto) : TcpOffset frame proto off :=
  tcpOffset_of_ne fun h => hp (.inl h)

theorem readAt_of_none {o : Nat} (hp : ¬HasTransport ver proto) :
    readAt frame n ver proto o = {} := by
  simp only [HasTransport, not_or] at hp
  exact (if_neg hp.1).trans <| (if_neg hp.2.1).trans (if_neg hp.2.2)

theorem ReadsAt.of_none {o o' : Nat} (hp : ¬HasTransport ver proto)
    (hr : ReadsAt pkt frame n ver proto o) : ReadsAt pkt frame n ver proto o' := by
  have he : readAt frame n ver proto o = readAt frame n ver proto o' :=
    (readAt_of_none hp).trans (readAt_of_none hp).symm
  exact { hr with
    srcPort := he ▸ hr.srcPort, dstPort := he ▸ hr.dstPort, tcpFlags := he ▸ hr.tcpFlags }

theorem infoAt_of_none (hv : ipv6.isSome = decide (ver = .v6)) (hp : ¬HasTransport ver proto)
    (hq : ¬HasTransport ver q) :
    { infoAt frame packet total ip ipv6 proto off e with protocol := q } =
      infoAt frame packet total ip ipv6 q off e := by
  have none {p : BitVec 8} (hp : ¬HasTransport ver p) :
      Wd.parseTransport ipv6.isSome p (rest frame off e) = {} := by
    simp only [HasTransport, not_or] at hp
    cases ver <;> simp_all [Wd.parseTransport, icmpProto]
  simp only [infoAt, Wd.packetInfo]
  simp only [none hp, none hq, ↓reduceIte]

theorem not_hasTransport_of_ext (hq : ExtHdr.isExt q) : ¬HasTransport .v6 q := by
  rintro (rfl | rfl | rfl) <;> exact absurd hq (by decide)

theorem Broken.incomplete (hb : Broken frame proto off limit) (hp : HasTransport ver proto) :
    ¬(TransportAt ver proto off limit ∧ TcpOffset frame proto off) := by
  rintro ⟨ht, ho⟩
  cases hb
  case offset hp hb =>
    have := ho hp
    omega
  case short hl hb =>
    rcases hp with rfl | rfl | rfl
    case inl =>
      obtain rfl : 20 = _ := Option.some.inj hl
      exact absurd (ht.tcp rfl) (by omega)
    case inr.inl =>
      obtain rfl : 8 = _ := Option.some.inj hl
      exact absurd (ht.udp rfl) (by omega)
    case inr.inr =>
      obtain rfl : 8 = _ := by cases ver <;> exact Option.some.inj hl
      exact absurd (ht.icmp rfl) (by omega)

theorem Broken.isUpper (hb : Broken frame proto off limit) : IsUpper proto := by
  cases hb
  case offset hp _ => exact hp ▸ ⟨rfl, by decide⟩
  case short hl _ =>
    simp only [transportLen] at hl
    split_ifs at hl with ht hp
    case pos => exact ht ▸ ⟨rfl, by decide⟩
    case pos =>
      simp only [List.mem_cons, List.not_mem_nil, or_false] at hp
      rcases hp with rfl | rfl | rfl <;> exact ⟨rfl, by decide⟩

end Wire

open Wire

namespace Handle

variable {cfg : DivertConfig} {skb : Skb} {direction : Dir} {pkt : ParsedPacket}
variable {off off' e total : Nat} {hs : List ExtHdr} {proto : BitVec 8} {frame packet : Bytes}
variable {ver : IpVer} {ip : Option Wd.IpHdr} {ipv6 : Option Wd.Ipv6Hdr}

theorem pulled_eq : skb.pulled = skb.bytes.take skb.pulled.length := by
  rw [Skb.pulled, List.length_take, List.take_eq_take_min]

theorem pulled_le : skb.pulled.length ≤ skb.bytes.length := by
  rw [Skb.pulled, List.length_take]
  omega

-- Both parsers read an IP packet without extension headers in the same way.
theorem agrees_of_packetAt (hl : Ethernet skb.bytes off)
    (hp : PacketAt skb.bytes skb.pulled.length off) : ∃ pkt info,
    parsePacket skb.pulled = some pkt ∧ Wd.parsePacketEx (skb.bytes.drop off) = some info ∧
      pkt.l2Len = off ∧ Agrees pkt info := by
  obtain ⟨pkt, info, hk, hi, rfl, ha⟩ := hp.agrees hl pulled_le
  exact ⟨pkt, info, pulled_eq ▸ hk, hi, rfl, ha⟩

theorem parsePacketEx_family {packet : Bytes} {info : Wd.PacketInfo}
    (h : Wd.parsePacketEx packet = some info) : info.ipHeader.isSome = !info.ipv6Header.isSome := by
  rw [Wd.parsePacketEx] at h
  simp only at h
  split_ifs at h <;> cases h <;> rfl

theorem filterEval_parsed {f : Wd.Filter} {hash : BitVec 64} {packet : Bytes} {addr : Wd.Address}
    {info : Wd.PacketInfo} (hf : f.layer = .network) (hl : addr.layer = .network)
    (hi : Wd.parsePacketEx packet = some info) (hv : addr.ipv6 = info.ipv6Header.isSome) :
    Wd.filterEval f hash packet addr = Wd.executeFilter f.object (addr.input hash packet info) := by
  have hfam : ¬((addr.ipv6 ∧ info.ipv6Header.isNone) ∨ (¬addr.ipv6 ∧ info.ipHeader.isNone)) := by
    have := parsePacketEx_family hi
    cases h4 : info.ipHeader <;> cases h6 : info.ipv6Header <;> simp_all
  rw [Wd.filterEval, if_neg (by simp [hl, hf]), if_pos (.inl hl), hi]
  simp only [Option.bind_eq_bind, Option.bind_some, if_neg hfam]

-- The evaluator has the header of a protocol exactly if it is complete.
theorem hasTransport_infoAt (hp : HasTransport ver proto) (hv : ipv6.isSome = decide (ver = .v6)) :
    hasTransport (infoAt frame packet total ip ipv6 proto off e) proto ↔
      TransportAt ver proto off (min e frame.length) ∧ TcpOffset frame proto off := by
  rcases hp with rfl | rfl | rfl
  case inl =>
    change (Wd.parseTransport ipv6.isSome Wd.ipprotoTcp (rest frame off e)).tcpHeader.isSome ↔ _
    rw [Wd.tcpHeader_eq, Option.isSome_ite, length_rest, transportAt_tcp, and_iff_right rfl]
    constructor
    case mp =>
      rintro ⟨hl, ho⟩
      rw [byte_rest (by omega)] at ho
      exact ⟨by omega, fun _ => ho⟩
    case mpr =>
      rintro ⟨hl, ho⟩
      exact ⟨by omega, by rw [byte_rest (by omega)]; exact ho rfl⟩
  case inr.inl =>
    change (Wd.parseTransport ipv6.isSome Wd.ipprotoUdp (rest frame off e)).udpHeader.isSome ↔ _
    rw [Wd.udpHeader_eq, Option.isSome_ite, length_rest, transportAt_udp, and_iff_right rfl,
      and_iff_left (tcpOffset_of_ne (by decide))]
    omega
  case inr.inr =>
    rw [transportAt_icmp]
    cases ver
    case v4 =>
      change (Wd.parseTransport ipv6.isSome Wd.ipprotoIcmp (rest frame off e)).icmpHeader.isSome ↔ _
      rw [Wd.icmpHeader_eq, Option.isSome_ite, length_rest, hv, and_iff_right ⟨rfl, rfl⟩,
        and_iff_left (tcpOffset_of_ne (by decide))]
      omega
    case v6 =>
      change (Wd.parseTransport ipv6.isSome Wd.ipprotoIcmpv6 (rest frame off e)).icmpv6Header.isSome ↔ _
      rw [Wd.icmpv6Header_eq, Option.isSome_ite, length_rest, hv, and_iff_right ⟨rfl, rfl⟩,
        and_iff_left (tcpOffset_of_ne (by decide))]
      omega

-- Where the packet programs and the evaluator disagree on the one header that there may be, the
-- rules are only sound if nobody looks for it.
theorem soundFor_iff (hk : parsePacket skb.pulled = some pkt)
    (hi : Wd.parsePacketEx (skb.bytes.drop off) =
      some (infoAt skb.bytes packet total ip ipv6 proto off' e))
    (hf : pkt.fragment = false) (h4 : ip.isSome = decide (pkt.ver = .v4))
    (h6 : ipv6.isSome = decide (pkt.ver = .v6))
    (hm : HasTransport pkt.ver proto →
      (pkt.proto = proto ↔ ¬(TransportAt pkt.ver proto off' (min e skb.bytes.length) ∧
        TcpOffset skb.bytes proto off')))
    (ha : ¬HasTransport pkt.ver proto →
      Agrees pkt { infoAt skb.bytes packet total ip ipv6 proto off' e with protocol := pkt.proto }) :
    SoundFor cfg skb direction off ↔ ¬HasTransport pkt.ver proto := by
  by_cases hp : HasTransport pkt.ver proto
  case neg => exact iff_of_true (soundFor_of_agrees hk hi (ha hp)) hp
  case pos =>
    refine iff_of_false (not_soundFor hk hi hf ?_ ?_ hp ?_) (not_not_intro hp)
    case refine_1 => exact h4 ▸ decide_eq_true_iff
    case refine_2 => exact h6 ▸ decide_eq_true_iff
    case refine_3 =>
      have ht : hasTransport (infoAt skb.bytes packet total ip ipv6 proto off' e) proto ↔ _ :=
        hasTransport_infoAt hp h6
      rw [Ne, Bool.eq_iff_iff, ht, beq_iff_eq, hm hp]
      exact iff_not_self

-- Where the chain is too long or has other headers than options, the packet programs take an
-- extension header for the transport header.
theorem stopped_soundFor_iff (hf : findL2 skb.pulled = some off)
    (h : ChainAt skb.bytes skb.pulled.length off hs proto off') (ho : TcpOffset skb.bytes proto off')
    (hb : ∀ h ∈ hs, h.lenByte skb.bytes ≠ 255)
    (hw : ¬(hs.length ≤ maxExtHeaders ∧ ∀ h ∈ hs, ExtHdr.isSkippable h.proto)) :
    SoundFor cfg skb direction off ↔ ¬HasTransport .v6 proto := by
  have hn : skb.pulled.length ≤ skb.bytes.length := pulled_le
  have he := h.whole
  rw [pulled_eq] at hf
  obtain ⟨⟨q, o, _⟩, hs, hq, rfl⟩ := h.chain.stop hn (by omega) hb hw
  have hk := h.ipv6.parsePacket hn hf hs rfl
  rw [← pulled_eq] at hk
  have hqt := not_hasTransport_of_ext hq
  refine soundFor_iff hk (h.parsePacketEx hn) rfl rfl rfl (fun hp => ?_) fun hp => ?_
  case refine_1 =>
    refine iff_of_false ?_ (not_not_intro ⟨h.transport.mono (by omega), ho⟩)
    rintro rfl
    exact hqt hp
  case refine_2 =>
    rw [infoAt_of_none rfl hp hqt]
    refine agrees_ipv6 hn h.ipv6 (transportAt_of_none hqt) (tcpOffset_of_none hqt)
      (ReadsAt.of_none (o := o) hqt ?_) rfl rfl rfl
    exact ⟨rfl, rfl, rfl, rfl, rfl, rfl⟩

-- A TCP segment behind an authentication header.
def signedFrame : Bytes :=
  let tcp : Bytes := [0xC0, 0, 0, 80] ++ .replicate 8 0 ++ [0x50, 0x02] ++ .replicate 6 0
  ipv6Frame 32 51 ([6, 1] ++ .replicate 10 0 ++ tcp)

theorem headers_pulled (hf : findL2 skb.pulled = some off) :
    min (off + 60) skb.bytes.length ≤ skb.pulled.length := by
  have := findL2_le hf
  rw [Skb.pulled, List.length_take, Skb.len]
  omega

theorem hdrLen_le : hdrLen frame off ≤ 60 := by
  have : (frame.byte off &&& 0x0F).toNat ≤ 15 := by
    rw [BitVec.toNat_and]
    exact Nat.and_le_right
  rw [hdrLen]
  omega

-- An IPv4 packet that ends after four bytes of its TCP header.
def shortFrame : Bytes :=
  .replicate 12 2 ++ [0x08, 0] ++ [0x45, 0, 0, 24, 0, 0, 0x40, 0, 64, 6, 0, 0] ++
    [10, 0, 0, 1, 192, 0, 2, 1] ++ [0xC0, 0, 0, 80]

end Handle
