import EbpfDivert.Kernel.Theorems.Parse
import EbpfDivert.Wire.Basic

open Shared

namespace Wd

variable {ipv6 : Bool} {protocol : BitVec 8} {data : Bytes}

-- When the evaluator has which transport header.
theorem tcpHeader_eq : (parseTransport ipv6 protocol data).tcpHeader =
    if protocol = ipprotoTcp ∧ 20 ≤ data.length ∧ 5 ≤ (data.byte 12 >>> 4).toNat then
      some (.decode data) else none := by
  have ho : (TcpHdr.decode data).hdrLength.toNat = (data.byte 12 >>> 4).toNat := by
    simp only [TcpHdr.decode, BitVec.toNat_setWidth, BitVec.toNat_ushiftRight]
    have := (data.byte 12).isLt
    omega
  by_cases hp : protocol = ipprotoTcp
  case neg => simp only [parseTransport, hp, false_and, ↓reduceIte]; split_ifs <;> rfl
  case pos =>
    simp only [parseTransport, hp, ho, TcpHdr.size, true_and, ↓reduceIte]
    split_ifs
    case pos => omega
    case neg => rfl
    case pos => rfl
    case neg => omega

theorem udpHeader_eq : (parseTransport ipv6 protocol data).udpHeader =
    if protocol = ipprotoUdp ∧ 8 ≤ data.length then some (.decode data) else none := by
  by_cases hp : protocol = ipprotoUdp
  case neg => simp only [parseTransport, hp, false_and, ↓reduceIte]; split_ifs <;> rfl
  case pos =>
    simp only [parseTransport, hp, UdpHdr.size, show ipprotoUdp ≠ ipprotoTcp by decide, true_and,
      ↓reduceIte]
    by_cases hl : data.length < 8 <;> simp [hl]

theorem icmpHeader_eq : (parseTransport ipv6 protocol data).icmpHeader =
    if (ipv6 = false ∧ protocol = ipprotoIcmp) ∧ 8 ≤ data.length then some (.decode data)
    else none := by
  by_cases hp : protocol = ipprotoIcmp
  case neg => simp only [parseTransport, hp, false_and, and_false, ↓reduceIte]; split_ifs <;> rfl
  case pos =>
    simp only [parseTransport, hp, IcmpHdr.size, show ipprotoIcmp ≠ ipprotoTcp by decide,
      show ipprotoIcmp ≠ ipprotoUdp by decide, and_true, ↓reduceIte]
    by_cases hl : data.length < 8 <;> cases ipv6 <;> simp [hl]

theorem icmpv6Header_eq : (parseTransport ipv6 protocol data).icmpv6Header =
    if (ipv6 ∧ protocol = ipprotoIcmpv6) ∧ 8 ≤ data.length then some (.decode data) else none := by
  by_cases hp : protocol = ipprotoIcmpv6
  case neg => simp only [parseTransport, hp, false_and, and_false, ↓reduceIte]; split_ifs <;> rfl
  case pos =>
    simp only [parseTransport, hp, IcmpHdr.size, show ipprotoIcmpv6 ≠ ipprotoTcp by decide,
      show ipprotoIcmpv6 ≠ ipprotoUdp by decide, show ipprotoIcmpv6 ≠ ipprotoIcmp by decide,
      and_true, ↓reduceIte]
    by_cases hl : data.length < 8 <;> cases ipv6 <;> simp [hl]

end Wd

namespace Wire

variable {frame : Bytes} {n off off' k : Nat} {proto proto' : BitVec 8} {hs : List ExtHdr}

-- A number whose lower bits are zero.
theorem setWidth_of_and {w : BitVec 16} (h : w &&& 0x3FFF = 0) :
    w &&& 0x1FFF = 0 ∧ w.setWidth 13 = 0 ∧ w.getLsbD 13 = false := by
  have hw : w.toNat % 2 ^ 14 = 0 := by
    have := congrArg BitVec.toNat h
    rwa [BitVec.toNat_and, show (0x3FFF : BitVec 16).toNat = 2 ^ 14 - 1 from rfl,
      Nat.and_two_pow_sub_one_eq_mod] at this
  refine ⟨BitVec.eq_of_toNat_eq ?_, BitVec.eq_of_toNat_eq ?_, ?_⟩
  case refine_1 =>
    rw [BitVec.toNat_and, show (0x1FFF : BitVec 16).toNat = 2 ^ 13 - 1 from rfl,
      Nat.and_two_pow_sub_one_eq_mod]
    simp
    omega
  case refine_2 =>
    simp
    omega
  case refine_3 =>
    rw [BitVec.getLsbD, Nat.testBit_eq_decide_div_mod_eq]
    simp
    omega

theorem toNat_setWidth_four {b : BitVec 8} : (b.setWidth 4).toNat = (b &&& 0x0F).toNat := by
  rw [BitVec.toNat_and, show (0x0F : BitVec 8).toNat = 2 ^ 4 - 1 from rfl, Nat.and_two_pow_sub_one_eq_mod,
    BitVec.toNat_setWidth]

-- The bytes of a frame from an offset up to where the packet ends.
def rest (frame : Bytes) (off e : Nat) : Bytes :=
  (frame.take e).drop off

theorem Ethernet.findL2 (h : Ethernet frame off) (hn : off ≤ n) (hl : n ≤ frame.length) :
    Kernel.findL2 (frame.take n) = some off := by
  have hlen : (frame.take n).length = n := by simp; omega
  have hv (hv : Kernel.isVlanType (frame.be16 12)) : Kernel.isIpType (frame.be16 12) = false := by
    simp only [Kernel.isVlanType, decide_eq_true_eq] at hv
    rcases hv with hv | hv <;> simp [Kernel.isIpType, hv]
  suffices Kernel.ethernetLen (frame.take n) = some off by rw [Kernel.findL2, this, Option.some_or]
  cases h
  case untagged ht =>
    rw [Kernel.ethernetLen, hlen, if_neg (by omega), Bytes.be16_take (by omega), if_pos ht]
  case vlan hv' ht =>
    rw [Kernel.ethernetLen, hlen, if_neg (by omega), Bytes.be16_take (by omega),
      if_neg (by simp [hv hv']), if_neg (by simp [hv']; omega), Bytes.be16_take (by omega),
      if_pos ht]
  case qinq hv' hq ht =>
    rw [Kernel.ethernetLen, hlen, if_neg (by omega), Bytes.be16_take (by omega),
      if_neg (by simp [hv hv']), if_neg (by simp [hv']; omega), Bytes.be16_take (by omega),
      if_neg (by simp [hq, Kernel.isIpType]), if_neg (by simp [hq]; omega),
      Bytes.be16_take (by omega), if_pos ht]

section Rest

variable {e i : Nat}

theorem length_rest : (rest frame off e).length = min e frame.length - off := by
  simp [rest]

theorem byte_rest (h : off + i < e) : (rest frame off e).byte i = frame.byte (off + i) := by
  rw [rest, Bytes.byte_drop, Bytes.byte_take h]

theorem be16_rest (h : off + i + 2 ≤ e) : (rest frame off e).be16 i = frame.be16 (off + i) := by
  rw [rest, Bytes.be16_drop, Bytes.be16_take h]

theorem drop_rest : (rest frame off e).drop i = rest frame (off + i) e := by
  rw [rest, rest, List.drop_drop]

end Rest

theorem Ipv4At.parsePacketEx (h : Ipv4At frame n off) (hn : n ≤ frame.length) :
    Wd.parsePacketEx (frame.drop off) = some (Wd.packetInfo (frame.drop off)
      (frame.be16 (off + 2)).toNat (some (.decode (frame.drop off))) none
      ⟨frame.byte (off + 9), rest frame (off + hdrLen frame off) (end4 frame off), 0, false,
        false⟩) := by
  have ⟨hv, hi, hl, hw, hf⟩ := h
  have ⟨_, hf₁₃, hm⟩ := setWidth_of_and hf
  have hlen : (frame.drop off).length = frame.length - off := List.length_drop
  have hmf : (frame.byte (off + 6)).getLsbD 5 = false := by
    rw [Bytes.getLsbD_be16 (by omega)] at hm
    exact hm
  have hd : (List.take (frame.be16 (off + 2)).toNat (frame.drop off)).drop (hdrLen frame off) =
      rest frame (off + hdrLen frame off) (end4 frame off) := by
    rw [List.take_drop, List.drop_drop]
    rfl
  simp only [end4, hdrLen] at hl hw hi
  rw [Wd.parsePacketEx]
  simp only [Wd.IpHdr.decode, Wd.IpHdr.size, Bytes.byte_drop, Bytes.be16_drop, hlen, Nat.add_zero,
    toNat_setWidth_four, hf₁₃, hmf]
  rw [if_neg (by omega), if_pos hv, if_neg (by omega), ← hd]
  rfl

theorem Ipv6At.parsePacketEx (h : Ipv6At frame n off) (hn : n ≤ frame.length) :
    Wd.parsePacketEx (frame.drop off) = some (Wd.packetInfo (frame.drop off)
      ((frame.be16 (off + 4)).toNat + 40) none (some (.decode (frame.drop off)))
      (Wd.Chain.walk (frame.drop off).length
        ⟨frame.byte (off + 6), rest frame (off + 40) (end6 frame off), 0, false, false⟩)) := by
  have ⟨hv, hw⟩ := h
  have hlen : (frame.drop off).length = frame.length - off := List.length_drop
  have hd : (List.take ((frame.be16 (off + 4)).toNat + 40) (frame.drop off)).drop 40 =
      rest frame (off + 40) (end6 frame off) := by
    rw [List.take_drop, List.drop_drop, rest, end6, show off + ((frame.be16 (off + 4)).toNat + 40) =
      off + 40 + (frame.be16 (off + 4)).toNat by omega]
  have h4 : frame.byte off >>> 4 ≠ 4 := by rw [hv]; decide
  rw [Wd.parsePacketEx]
  simp only [Wd.Ipv6Hdr.decode, Wd.Ipv6Hdr.size, Wd.IpHdr.size, Bytes.byte_drop, Bytes.be16_drop,
    hlen, Nat.add_zero]
  rw [if_neg (by omega), if_neg h4, if_pos hv, if_neg (by omega), hd]

theorem BrokenAt.parsePacketEx {ver : IpVer} {proto : BitVec 8} (h : BrokenAt frame off ver proto)
    (hh : ¬HeaderAt frame off ver) : Wd.parsePacketEx (frame.drop off) = none := by
  have hlen : (frame.drop off).length = frame.length - off := List.length_drop
  rw [Wd.parsePacketEx]
  simp only [Wd.IpHdr.decode, Wd.IpHdr.size, Wd.Ipv6Hdr.size, Bytes.byte_drop, Bytes.be16_drop, hlen,
    Nat.add_zero, toNat_setWidth_four]
  by_cases hl : frame.length - off < 20
  case pos => exact if_pos hl
  case neg =>
    rw [if_neg hl]
    cases h
    case v4 hv hf _ =>
      rw [if_pos hv]
      refine if_pos ?_
      by_contra hc
      refine hh ⟨hv, ?_, ?_, ?_, hf⟩ <;> simp only [hdrLen, end4] <;> omega
    case v6 hv _ =>
      have h4 : frame.byte off >>> 4 ≠ 4 := by rw [hv]; decide
      rw [if_neg h4, if_pos hv]
      refine if_pos ?_
      by_contra hc
      exact hh ⟨hv, by omega⟩

-- What the packet programs make of the transport header.
def readAt (frame : Bytes) (n : Nat) (ver : IpVer) (proto : BitVec 8) (off : Nat) :
    Kernel.Transport :=
  Kernel.readTransport (frame.take n) off proto (icmpProto ver)

theorem Ipv4At.parsePacket (h : Ipv4At frame n off) (hn : n ≤ frame.length)
    (hf : Kernel.findL2 (frame.take n) = some off) :
    let t := readAt frame n .v4 (frame.byte (off + 9)) (off + hdrLen frame off)
    Kernel.parsePacket (frame.take n) = some
      { ver := .v4, srcIp := frame.be32 (off + 12), dstIp := frame.be32 (off + 16)
        srcIp6 := .replicate 16 0, dstIp6 := .replicate 16 0, srcPort := t.srcPort
        dstPort := t.dstPort, l2Len := off, proto := frame.byte (off + 9)
        ttl := frame.byte (off + 8), tcpFlags := t.tcpFlags, fragment := false, isLo := false } := by
  have ⟨hv, hi, _, hw, hnf⟩ := h
  have hf₁₃ := (setWidth_of_and hnf).1
  have hlen : (frame.take n).length = n := by simp; omega
  simp only [hdrLen] at hi hw
  rw [Kernel.parsePacket, hf]
  simp only [Option.bind_eq_bind, Option.bind_some, hlen]
  rw [if_neg (by omega), Bytes.byte_take (by omega), if_pos hv, Kernel.parseIpv4]
  simp (disch := omega) only [hlen, Bytes.byte_take, Bytes.be16_take, Bytes.be32_take, hf₁₃, hnf]
  rw [if_neg (by omega), if_neg (by omega)]
  rfl

theorem Ipv6At.parsePacket {s : Kernel.ExtState} (h : Ipv6At frame n off) (hn : n ≤ frame.length)
    (hf : Kernel.findL2 (frame.take n) = some off)
    (hs : Kernel.skipExtHeaders (frame.take n) Kernel.maxExtHeaders
      ⟨frame.byte (off + 6), off + 40, false⟩ = some s) (hnf : s.fragment = false) :
    let t := readAt frame n .v6 s.nexthdr s.off
    Kernel.parsePacket (frame.take n) = some
      { ver := .v6, srcIp := 0, dstIp := 0, srcIp6 := (frame.drop (off + 8)).take 16
        dstIp6 := (frame.drop (off + 24)).take 16, srcPort := t.srcPort, dstPort := t.dstPort
        l2Len := off, proto := s.nexthdr, ttl := frame.byte (off + 7), tcpFlags := t.tcpFlags
        fragment := false, isLo := false } := by
  have ⟨hv, hw⟩ := h
  have hlen : (frame.take n).length = n := by simp; omega
  have h4 : frame.byte off >>> 4 ≠ 4 := by rw [hv]; decide
  rw [Kernel.parsePacket, hf]
  simp only [Option.bind_eq_bind, Option.bind_some, hlen]
  rw [if_neg (by omega), Bytes.byte_take (by omega), if_neg h4, if_pos hv, Kernel.parseIpv6, hlen,
    if_neg (by omega), Bytes.byte_take (by omega), Bytes.byte_take (by omega), hs]
  simp only [Option.bind_eq_bind, Option.bind_some, hnf,
    Bytes.take_drop_take (show off + 8 + 16 ≤ n by omega),
    Bytes.take_drop_take (show off + 24 + 16 ≤ n by omega)]
  rfl

theorem ExtHdr.eight_le_len (frame : Bytes) (h : ExtHdr) : 8 ≤ h.len frame := by
  rw [len]
  split_ifs <;> omega

theorem Chain.le (h : Chain frame proto off hs proto' off') : off + 8 * hs.length ≤ off' := by
  induction h
  case nil => simp
  case cons proto _ off _ _ _ _ ih =>
    have := ExtHdr.eight_le_len frame ⟨proto, off⟩
    simp only [List.length_cons]
    omega

section Walk

variable {e fuel : Nat}

theorem extHeaderLen_of_ext (he : ExtHdr.isExt proto) (hl : off + 2 ≤ e) :
    Wd.Chain.extHeaderLen ⟨proto, rest frame off e, 0, false, false⟩ =
      some (ExtHdr.len frame ⟨proto, off⟩) := by
  simp only [Wd.Chain.extHeaderLen, ExtHdr.len, ExtHdr.lenByte, byte_rest (show off + 1 < e by omega)]
  simp only [ExtHdr.isExt, ExtHdr.isSkippable, Bool.or_eq_true, decide_eq_true_eq, List.mem_cons,
    List.not_mem_nil, or_false] at he
  rcases he with (rfl | rfl | rfl) | rfl | rfl <;> rfl

theorem extHeaderLen_of_upper (hu : IsUpper proto) {data : Bytes} :
    Wd.Chain.extHeaderLen ⟨proto, data, 0, false, false⟩ = none := by
  obtain ⟨he, hf⟩ := hu
  simp only [ExtHdr.isExt, ExtHdr.isSkippable, Bool.or_eq_false_iff, decide_eq_false_iff_not,
    List.mem_cons, List.not_mem_nil, or_false, not_or] at he
  simp [Wd.Chain.extHeaderLen, hf, he]

-- The evaluator comes to the end of the chain.
theorem Chain.walk (h : Chain frame proto off hs proto' off') (hu : IsUpper proto')
    (he : off' ≤ min e frame.length) (hf : hs.length ≤ fuel) :
    Wd.Chain.walk fuel ⟨proto, rest frame off e, 0, false, false⟩ =
      ⟨proto', rest frame off' e, 0, false, false⟩ := by
  induction h generalizing fuel
  case nil =>
    cases fuel
    case zero => rfl
    case succ => simp only [Wd.Chain.walk, extHeaderLen_of_upper hu, ite_self]
  case cons proto _ off _ hs hx ht ih =>
    have hle := ht.le
    have h₈ := ExtHdr.eight_le_len frame ⟨proto, off⟩
    obtain _ | fuel := fuel
    case zero => simp at hf
    case succ =>
      have hl : ¬(rest frame off e).length < ExtHdr.len frame ⟨proto, off⟩ := by
        rw [length_rest]
        omega
      have hnf : proto ≠ Wd.ipprotoFragment := by
        rintro rfl
        exact absurd hx (by decide)
      rw [Wd.Chain.walk, if_pos ⟨rfl, by dsimp only; omega⟩, extHeaderLen_of_ext hx (by omega)]
      dsimp only
      rw [if_neg hl, Wd.Chain.skip, if_neg hnf]
      dsimp only
      rw [byte_rest (by omega), drop_rest]
      exact ih hu he (by simpa using hf)

end Walk

section Skip

-- Of the headers in a chain the packet programs only know those they can skip.
theorem isExtHeader_eq (hf : proto ≠ Wd.ipprotoFragment) :
    Kernel.isExtHeader proto = ExtHdr.isSkippable proto := by
  rw [Bool.eq_iff_iff]
  simp only [Kernel.isExtHeader, ExtHdr.isSkippable, decide_eq_true_eq, List.mem_cons,
    List.not_mem_nil, or_false, Wd.ipprotoHopopts, Wd.ipprotoRouting, Wd.ipprotoDstopts]
  have : proto ≠ 44 := hf
  tauto

theorem ne_fragment_of_ext (he : ExtHdr.isExt proto) : proto ≠ Wd.ipprotoFragment := by
  rintro rfl
  exact absurd he (by decide)

theorem isExt_of_skippable (hs : ExtHdr.isSkippable proto) : ExtHdr.isExt proto := by
  simp [ExtHdr.isExt, hs]

theorem skipExtHeaders_of_not (hf : proto ≠ Wd.ipprotoFragment)
    (hs : ExtHdr.isSkippable proto = false) {data : Bytes} :
    Kernel.skipExtHeaders data k ⟨proto, off, false⟩ = some ⟨proto, off, false⟩ := by
  cases k
  case zero => rfl
  case succ => simp [Kernel.skipExtHeaders, isExtHeader_eq hf, hs]

theorem len_of_skippable {h : ExtHdr} (hs : ExtHdr.isSkippable h.proto) :
    h.len frame = ((h.lenByte frame).toNat + 1) * 8 := by
  refine if_neg fun ha => ?_
  rw [ha] at hs
  exact absurd hs (by decide)

-- One round of the loop. The length of a header of 2048 bytes is taken to be zero.
theorem skipExtHeaders_succ (hs : ExtHdr.isSkippable proto) (hn : n ≤ frame.length)
    (hl : off + ExtHdr.len frame ⟨proto, off⟩ ≤ n) :
    Kernel.skipExtHeaders (frame.take n) (k + 1) ⟨proto, off, false⟩ =
      Kernel.skipExtHeaders (frame.take n) k
        ⟨frame.byte off, off + ExtHdr.len frame ⟨proto, off⟩ % 0x800, false⟩ := by
  have hf := ne_fragment_of_ext (isExt_of_skippable hs)
  have h₈ := ExtHdr.eight_le_len frame ⟨proto, off⟩
  have hlen : (frame.take n).length = n := by simp; omega
  have h₄₄ : proto ≠ 44 := hf
  have hx : ((frame.byte (off + 1)).toNat + 1) * 8 = ExtHdr.len frame ⟨proto, off⟩ := by
    rw [len_of_skippable (h := ⟨proto, off⟩) hs, ExtHdr.lenByte]
  have hm := Nat.mod_le (ExtHdr.len frame ⟨proto, off⟩) 0x800
  rw [Kernel.skipExtHeaders]
  simp (disch := omega) only [isExtHeader_eq hf, hs, hlen, h₄₄, Bytes.byte_take, ↓reduceIte, hx,
    Bool.false_eq_true, or_self, decide_false]
  rw [if_neg (by simp), if_neg (by omega), if_neg (by omega)]

theorem skipExtHeaders_short (hs : ExtHdr.isSkippable proto) (hn : n ≤ frame.length)
    (hl : off + ExtHdr.len frame ⟨proto, off⟩ ≤ n) (hb : frame.byte (off + 1) ≠ 255) :
    Kernel.skipExtHeaders (frame.take n) (k + 1) ⟨proto, off, false⟩ =
      Kernel.skipExtHeaders (frame.take n) k
        ⟨frame.byte off, off + ExtHdr.len frame ⟨proto, off⟩, false⟩ := by
  have hlt : ExtHdr.len frame ⟨proto, off⟩ < 0x800 := by
    have hb : (frame.byte (off + 1)).toNat ≠ 255 := fun h => hb (BitVec.eq_of_toNat_eq h)
    have := (frame.byte (off + 1)).isLt
    rw [len_of_skippable hs]
    dsimp only [ExtHdr.lenByte]
    omega
  rw [skipExtHeaders_succ hs hn hl, Nat.mod_eq_of_lt hlt]

-- A chain of at most as many headers as there are rounds, none of them of 2048 bytes.
theorem Chain.skip (h : Chain frame proto off hs proto' off') (hu : IsUpper proto')
    (hn : n ≤ frame.length) (he : off' ≤ n) (hb : ∀ h ∈ hs, h.lenByte frame ≠ 255)
    (hw : ∀ h ∈ hs, ExtHdr.isSkippable h.proto) (hk : hs.length ≤ k) :
    Kernel.skipExtHeaders (frame.take n) k ⟨proto, off, false⟩ = some ⟨proto', off', false⟩ := by
  induction h generalizing k
  case nil =>
    refine skipExtHeaders_of_not hu.2 ?_
    have := hu.1
    simp only [ExtHdr.isExt, Bool.or_eq_false_iff] at this
    exact this.1
  case cons proto _ off _ hs _ ht ih =>
    obtain _ | k := k
    case zero => simp at hk
    case succ =>
      have ⟨(hb : frame.byte (off + 1) ≠ 255), hbs⟩ := List.forall_mem_cons.mp hb
      have ⟨(hp : ExtHdr.isSkippable proto), hw⟩ := List.forall_mem_cons.mp hw
      have hle := ht.le
      rw [skipExtHeaders_short hp hn (by omega) hb]
      exact ih hu he hbs hw (by simpa using hk)

-- Otherwise the packet programs stop at an extension header.
theorem Chain.stop (h : Chain frame proto off hs proto' off') (hn : n ≤ frame.length)
    (he : off' ≤ n) (hb : ∀ h ∈ hs, h.lenByte frame ≠ 255)
    (hw : ¬(hs.length ≤ k ∧ ∀ h ∈ hs, ExtHdr.isSkippable h.proto)) :
    ∃ s, Kernel.skipExtHeaders (frame.take n) k ⟨proto, off, false⟩ = some s ∧
      ExtHdr.isExt s.nexthdr ∧ s.fragment = false := by
  induction h generalizing k
  case nil => simp at hw
  case cons proto _ off _ hs hx ht ih =>
    obtain _ | k := k
    case zero => exact ⟨_, rfl, hx, rfl⟩
    case succ =>
      have ⟨(hb : frame.byte (off + 1) ≠ 255), hbs⟩ := List.forall_mem_cons.mp hb
      have hle := ht.le
      cases hp : ExtHdr.isSkippable proto
      case false => exact ⟨_, skipExtHeaders_of_not (ne_fragment_of_ext hx) hp, hx, rfl⟩
      case true =>
        rw [skipExtHeaders_short hp hn (by omega) hb]
        refine ih he hbs fun ⟨hk, hs⟩ => hw ⟨?_, List.forall_mem_cons.mpr ⟨hp, hs⟩⟩
        simpa using hk

-- A header of 2048 bytes is read again and again.
theorem skipExtHeaders_stuck (hs : ExtHdr.isSkippable proto) (hn : n ≤ frame.length)
    (hl : off + ExtHdr.len frame ⟨proto, off⟩ ≤ n) (hb : frame.byte (off + 1) = 255)
    (hf : frame.byte off ≠ Wd.ipprotoFragment) :
    Kernel.skipExtHeaders (frame.take n) (k + 1) ⟨proto, off, false⟩ =
      some ⟨frame.byte off, off, false⟩ := by
  have hz {proto : BitVec 8} (hs : ExtHdr.isSkippable proto) :
      ExtHdr.len frame ⟨proto, off⟩ = 0x800 := by
    rw [len_of_skippable hs, ExtHdr.lenByte, hb]
    rfl
  induction k generalizing proto
  case zero =>
    rw [skipExtHeaders_succ hs hn hl, hz hs]
    rfl
  case succ k ih =>
    rw [skipExtHeaders_succ hs hn hl, hz hs]
    cases hp : ExtHdr.isSkippable (frame.byte off)
    case false => exact skipExtHeaders_of_not hf hp
    case true  =>
      rw [hz hs] at hl
      exact ih hp (by rw [hz hp]; exact hl)

end Skip

end Wire
