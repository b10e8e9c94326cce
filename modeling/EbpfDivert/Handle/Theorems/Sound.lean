import EbpfDivert.Handle.Theorems.Scan
import EbpfDivert.Prefilter.Theorems.Network
import EbpfDivert.Wire.Theorems.Agree

open Shared Prefilter Kernel Wire

namespace Kernel

variable {env : Env} {cfg : DivertConfig} {t : Tables} {skb : Skb} {direction : Dir}
variable {flags : BitVec 16} {pkt : ParsedPacket}

-- Whether `process_packet` finds a rule for a packet that it comes to look at.
def matched (t : Tables) (cfg : DivertConfig) (skb : Skb) (direction : Dir) : Bool :=
  (parsePacket skb.pulled).any fun pkt =>
    (select t { pkt with isLo := isLo cfg skb } direction).isSome

-- A packet that gets past the checks is let through without a trace exactly if there is no rule.
theorem matched_iff (hg : gate env cfg skb direction = some (flags, pkt)) :
    matched t cfg skb direction ↔ processPacket env cfg t skb direction ≠ .pass none := by
  obtain ⟨_, _, pkt', _, _, hk, hpkt, _⟩ := gate_eq_some hg
  rw [matched, hk, processPacket_of_gate hg, judge, Option.any_some, ← hpkt]
  cases select t pkt direction
  case none => simp
  case some mm =>
    have ha : Acted env cfg skb pkt direction flags mm (act env cfg skb pkt direction flags mm) :=
      act_acted (by have := gate_packet hg; omega)
    simp only [Option.isSome_some, true_iff]
    intro h
    rw [h] at ha
    cases ha

end Kernel

namespace Handle

variable {cfg : DivertConfig} {skb : Skb} {direction : Dir} {pkt : ParsedPacket}
variable {info : Wd.PacketInfo} {addr : Wd.Address} {off : Nat} {lo : Bool} {hash : BitVec 64}

-- An address that says of a packet what `process_packet` knows of it besides its bytes.
structure Addressed (addr : Wd.Address) (direction : Dir) (lo : Bool) : Prop where
  event    : addr.event = 0
  outbound : addr.outbound = decide (direction = .outbound)
  loopback : addr.loopback = lo

-- The address of a captured packet is such a one.
theorem recordAddress_addressed {kenv : Kernel.Env} {env : Env} {h : Handle} {flags : BitVec 16}
    {n : Nat} (hg : gate kenv cfg skb direction = some (flags, pkt)) :
    Addressed (recordAddress env h (pktHeader kenv skb pkt direction flags n) skb.bytes).toAddress
      direction (isLo cfg skb) := by
  refine ⟨rfl, rfl, ?_⟩
  obtain ⟨mark, place, _, hm, hp, _, _, rfl⟩ := gate_eq_some hg
  simp only [recordAddress, pktHeader]
  rw [(checkMark_eq_some hm).flags_eq, (checkPlace_eq_some hp).flags_eq]
  simp

-- Whatever filter on the network layer accepts the packet, the rules made of it match it. Tests of
-- the local or remote address are left out.
def SoundFor (cfg : DivertConfig) (skb : Skb) (direction : Dir) (off : Nat) : Prop :=
  ∀ {h h' : Handle} {t : Tables} {hash : BitVec 64} {addr : Wd.Address}, h.layer = .network →
    Compiled h.filter.object →
    (∀ insn ∈ h.filter.object, insn.field ≠ .localAddr ∧ insn.field ≠ .remoteAddr) →
    h.loadRules = some (t, h') → Addressed addr direction (isLo cfg skb) →
    Wd.filterEval h.filter hash (skb.bytes.drop off) addr = some true → matched t cfg skb direction

-- The fields of a parsed packet with the addresses as the evaluator has them.
def fieldsOf (pkt : ParsedPacket) (direction : Dir) (x : Wd.Input) : PfPkt where
  ver       := pkt.ver
  src       := x.endpointAddr true
  dst       := x.endpointAddr false
  sport     := pkt.srcPort
  dport     := pkt.dstPort
  proto     := pkt.proto
  direction := direction
  loopback  := pkt.isLo
  ttl       := pkt.ttl
  tcpFlags  := pkt.tcpFlags

section Fields

variable {packet : Bytes}

theorem endpointAddr_ip {hdr : Wd.IpHdr} {useSrc : Bool} (hi : info.ipHeader = some hdr) :
    (addr.input hash packet (some info)).endpointAddr useSrc =
      .mapped (if useSrc then hdr.srcAddr else hdr.dstAddr) := by
  simp [Wd.Input.endpointAddr, Wd.Address.input, hi]

theorem endpointAddr_ipv6 {hdr : Wd.Ipv6Hdr} {useSrc : Bool} (hi : info.ipHeader = none)
    (hi6 : info.ipv6Header = some hdr) :
    (addr.input hash packet (some info)).endpointAddr useSrc =
      if useSrc then hdr.srcAddr else hdr.dstAddr := by
  simp [Wd.Input.endpointAddr, Wd.Address.input, hi, hi6]

-- The protocol that the evaluator has found is of no importance here.
variable (ha : Agrees pkt { info with protocol := pkt.proto })
include ha

theorem ipHeader_eq_none {hdr : Wd.Ipv6Hdr} (hi : info.ipv6Header = some hdr) :
    info.ipHeader = none := by
  have hv : pkt.ver = .v6 := ha.hasIpv6.mp (by simp [hi])
  cases hh : info.ipHeader
  case none => rfl
  case some => simpa [hv] using ha.hasIp.mp (by simp [hh])

theorem sameFields :
    SameFields pkt direction (fieldsOf pkt direction (addr.input hash packet (some info))) := by
  generalize hp : fieldsOf pkt direction (addr.input hash packet (some info)) = p
  have ip (hv : pkt.ver = .v4) : ∃ h, info.ipHeader = some h ∧ p.src = .mapped h.srcAddr ∧
      p.dst = .mapped h.dstAddr := by
    obtain ⟨h, hh⟩ := Option.isSome_iff_exists.mp <| ha.hasIp.mpr hv
    exact ⟨h, hh, hp ▸ endpointAddr_ip hh, hp ▸ endpointAddr_ip hh⟩
  have ipv6 (hv : pkt.ver = .v6) : ∃ h, info.ipv6Header = some h ∧ p.src = h.srcAddr ∧
      p.dst = h.dstAddr := by
    obtain ⟨h, hh⟩ := Option.isSome_iff_exists.mp <| ha.hasIpv6.mpr hv
    have hn := ipHeader_eq_none ha hh
    exact ⟨h, hh, hp ▸ endpointAddr_ipv6 hn hh, hp ▸ endpointAddr_ipv6 hn hh⟩
  have hv : p.ver = pkt.ver := by rw [← hp]; rfl
  constructor
  case src4 =>
    intro h4
    obtain ⟨h, hh, hs, _⟩ := ip (hv.symm.trans h4)
    exact hs ▸ (ha.ip h hh).1
  case dst4 =>
    intro h4
    obtain ⟨h, hh, _, hd⟩ := ip (hv.symm.trans h4)
    exact hd ▸ (ha.ip h hh).2.1
  case src6 =>
    intro h6
    obtain ⟨h, hh, hs, _⟩ := ipv6 (hv.symm.trans h6)
    exact hs ▸ (ha.ipv6 h hh).1
  case dst6 =>
    intro h6
    obtain ⟨h, hh, _, hd⟩ := ipv6 (hv.symm.trans h6)
    exact hd ▸ (ha.ipv6 h hh).2.1
  all_goals
    rw [← hp]
    rfl

theorem describes (hl : addr.layer = .network) (hd : Addressed addr direction pkt.isLo) :
    Describes (fieldsOf pkt direction (addr.input hash packet (some info)))
      (addr.input hash packet (some info)) := by
  constructor
  case layer    => exact .inl hl
  case event    => simp [Wd.Address.input, hd.event]
  case outbound => exact hd.outbound
  case loopback => exact hd.loopback
  case headers =>
    intro h
    cases h
    case ip     => exact ha.hasIp
    case ipv6   => exact ha.hasIpv6
    case tcp    => exact ha.hasTcp
    case udp    => exact ha.hasUdp
    case icmp   => exact ha.hasIcmp
    case icmpv6 => exact ha.hasIcmpv6
  case ip =>
    intro h (hh : info.ipHeader = some h)
    have ⟨_, _, ht, hp⟩ := ha.ip h hh
    exact ⟨endpointAddr_ip hh, endpointAddr_ip hh, ht, hp⟩
  case ipv6 =>
    intro h (hh : info.ipv6Header = some h)
    have hn := ipHeader_eq_none ha hh
    exact ⟨endpointAddr_ipv6 hn hh, endpointAddr_ipv6 hn hh, (ha.ipv6 h hh).2.2⟩
  case ports    => exact ⟨ha.tcp, ha.udp, ha.icmp, ha.icmpv6⟩
  case tcpFlags => exact ha.tcpFlags

end Fields

theorem filterEval_network {f : Wd.Filter} {packet : Bytes} (hf : f.layer = .network)
    (h : Wd.filterEval f hash packet addr = some true) :
    ∃ info, Wd.parsePacketEx packet = some info ∧ addr.layer = .network ∧
      Wd.executeFilter f.object (addr.input hash packet (some info)) = some true := by
  rw [Wd.filterEval] at h
  by_cases hl : addr.layer = f.layer
  case neg => simp [hl] at h
  case pos =>
    have hn := hl.trans hf
    simp only [hl, hf, ne_eq, not_true_eq_false, true_or, ↓reduceIte, Option.bind_eq_bind,
      Option.bind_eq_some_iff] at h
    obtain ⟨info, hi, h⟩ := h
    split_ifs at h
    exact ⟨info, hi, hn, h⟩

-- A packet that the evaluator does not take for an IP packet is not accepted.
theorem soundFor_of_none (hi : Wd.parsePacketEx (skb.bytes.drop off) = none) :
    SoundFor cfg skb direction off := by
  intro h _ _ _ _ hl _ _ _ _ hacc
  obtain ⟨info, hi', _⟩ := filterEval_network (h.filter_layer.trans hl) hacc
  simp [hi] at hi'

-- Where both parsers see the same headers, the rules match what the filter accepts.
theorem soundFor_of_agrees (hk : parsePacket skb.pulled = some pkt)
    (hi : Wd.parsePacketEx (skb.bytes.drop off) = some info)
    (ha : Agrees pkt { info with protocol := pkt.proto }) : SoundFor cfg skb direction off := by
  intro h h' t hash addr hl ho hn hload hd hacc
  have hfl : h.filter.layer = .network := h.filter_layer.trans hl
  obtain ⟨_, hi', hal, hacc⟩ := filterEval_network hfl hacc
  obtain rfl := Option.some.inj (hi.symm.trans hi')
  obtain ⟨res, hres, rfl, rfl⟩ := loadRules_eq_some hload
  have hb := pfLower_bare hres
  have hr : res = pfLowerObject h.filter.object := by
    rw [pfLower, if_pos (.inl hfl)] at hres
    exact (Option.some.inj hres).symm
  have hw : pkt.fragment = false := ha.fragment.1
  have ha : Agrees { pkt with isLo := isLo cfg skb } { info with protocol := pkt.proto } :=
    { ha with }
  have hm := pfMatch_sound ho (describes ha hal hd) hn hacc
  rw [matched, hk, Option.any_some, select, if_neg (by simp [hw]),
    scan_tables hb action_isAction, Option.isSome_map, hit_isSome_eq hb (sameFields ha), hr]
  exact hm

section Presence

variable {proto : BitVec 8} {want : Bool} {packet : Bytes} {ver : IpVer} {r : RuleCommon}

-- The header that goes with a protocol.
def presenceOf (proto : BitVec 8) : Wd.Field :=
  if proto = Wd.ipprotoTcp then .tcp
  else if proto = Wd.ipprotoUdp then .udp
  else if proto = Wd.ipprotoIcmp then .icmp
  else .icmpv6

def hasTransport (info : Wd.PacketInfo) (proto : BitVec 8) : Bool :=
  if proto = Wd.ipprotoTcp then info.tcpHeader.isSome
  else if proto = Wd.ipprotoUdp then info.udpHeader.isSome
  else if proto = Wd.ipprotoIcmp then info.icmpHeader.isSome
  else info.icmpv6Header.isSome

-- A filter that only asks for this header: `tcp` or `not tcp`, for instance.
def presence (proto : BitVec 8) (want : Bool) : List Wd.Insn :=
  [⟨presenceOf proto, if want then .neq else .eq, Wd.resultAccept, Wd.resultReject, false, .zero⟩]

theorem executeFilter_presence (hl : addr.layer = .network) :
    Wd.executeFilter (presence proto want) (addr.input hash packet (some info)) =
      some (hasTransport info proto == want) := by
  have hr : Wd.readField (addr.input hash packet (some info)) (presenceOf proto) .zero =
      .flag (hasTransport info proto) := by
    rw [presenceOf, hasTransport]
    split_ifs <;> simp [Wd.readField, Wd.Input.layered, Wd.Address.input, hl]
  have hv : Wd.validateField (addr.input hash packet (some info)).layer (presenceOf proto) := by
    simp only [Wd.Address.input, hl, presenceOf]
    split_ifs <;> rfl
  have ha : Wd.answer (addr.input hash packet (some info))
      ⟨presenceOf proto, if want then .neq else .eq, Wd.resultAccept, Wd.resultReject, false, .zero⟩ =
      some (hasTransport info proto == want) := by
    rw [Wd.answer_flag hv hr (by cases want <;> simp)]
    cases want <;> cases hasTransport info proto <;> rfl
  rw [Wd.executeFilter, presence, Wd.executeFilterFrom]
  simp only [List.getD_cons_zero, ha, Option.bind_eq_bind, Option.bind_some]
  cases hasTransport info proto == want <;> rfl

theorem presence_rules (hp : HasTransport ver proto) :
    ∀ r ∈ rulesOf (pfLowerObject (presence proto want)) ver,
      Flags.has r.matchMask matchProto ∧ Flags.has r.invertMask matchProto = !want ∧
      r.proto = proto := by
  rcases hp with rfl | rfl | rfl <;> cases ver <;> cases want <;> decide

theorem presence_compiled (hp : HasTransport ver proto) :
    Compiled (presence proto want) ∧
      ∀ insn ∈ presence proto want, insn.field ≠ .localAddr ∧ insn.field ≠ .remoteAddr := by
  rcases hp with rfl | rfl | rfl <;> cases ver <;> cases want <;> decide

theorem proto_of_hit {res : PfResult} (h : hit res pkt direction = some r) :
    Flags.clause r.matchMask r.invertMask matchProto (pkt.proto == r.proto) := by
  have common {α : Type} {eq : α → α → α → Bool} {trie : α → Option (BitVec 32)} {ver : IpVer}
      {src dst : α} {r : FilterRule α} (hm : matchesRule eq trie ver src dst pkt direction r) :
      Flags.clause r.matchMask r.invertMask matchProto (pkt.proto == r.proto) := by
    simp only [matchesRule, matchesCommon, Bool.and_eq_true] at hm
    tauto
  cases hv : pkt.ver <;> simp only [hit, hv, Option.map_eq_some_iff] at h <;>
    obtain ⟨r, hr, rfl⟩ := h
  case v4 => exact common (List.find?_some hr)
  case v6 => exact common (List.find?_some hr)

def plainAddress (direction : Dir) (lo ipv6 : Bool) : Wd.Address where
  timestamp   := 0
  layer       := .network
  event       := 0
  sniffed     := false
  outbound    := direction = .outbound
  loopback    := lo
  impostor    := false
  ipv6        := ipv6
  ipChecksum  := true
  tcpChecksum := true
  udpChecksum := true
  network     := ⟨0, 0⟩
  flow        := ⟨0, 0, 0, .zero, .zero, 0, 0, 0⟩
  socket      := ⟨0, 0, 0, .zero, .zero, 0, 0, 0⟩
  reflect     := ⟨0, 0, .network, 0, 0⟩

theorem filterEval_presence (hi : Wd.parsePacketEx packet = some info)
    (h4 : info.ipHeader.isSome ↔ ver = .v4) (h6 : info.ipv6Header.isSome ↔ ver = .v6) :
    Wd.filterEval ⟨.network, presence proto (hasTransport info proto)⟩ hash packet
      (plainAddress direction lo (ver = .v6)) = some true := by
  have hv : ¬((ver = .v6 ∧ info.ipv6Header.isNone) ∨ (¬ver = .v6 ∧ info.ipHeader.isNone)) := by
    cases ver
    case v4 => simp [Option.isSome_iff_ne_none.mp (h4.mpr rfl)]
    case v6 => simp [Option.isSome_iff_ne_none.mp (h6.mpr rfl)]
  rw [Wd.filterEval, if_neg (by simp [plainAddress]), if_pos (.inl rfl), hi]
  simp only [Option.bind_eq_bind, Option.bind_some, plainAddress, decide_eq_true_eq]
  rw [if_neg hv, ← plainAddress, executeFilter_presence rfl, beq_self_eq_true]

theorem matched_presence {a : BitVec 16} (ha : IsAction a) (hk : parsePacket skb.pulled = some pkt)
    (hf : pkt.fragment = false)
    (hp : HasTransport pkt.ver proto)
    (h : matched (tables (pfLowerObject (presence proto want)) a) cfg skb direction) :
    (pkt.proto == proto) = want := by
  rw [matched, hk, Option.any_some, select, if_neg (by simp [hf]),
    scan_tables pfLowerObject_bare ha, Option.isSome_map] at h
  obtain ⟨r, hr⟩ := Option.isSome_iff_exists.mp h
  have hmem : r ∈ rulesOf (pfLowerObject (presence proto want)) pkt.ver := (mem_of_hit hr :)
  obtain ⟨hm, hinv, hrp⟩ := presence_rules hp r hmem
  have hc := Flags.clause_iff.mp (proto_of_hit hr) hm
  rw [hrp, hinv] at hc
  rw [Bool.eq_iff_iff, hc]
  simp

-- A header that the packet programs expect where the evaluator has none, or the other way round,
-- makes them miss a packet.
theorem not_soundFor (hk : parsePacket skb.pulled = some pkt)
    (hi : Wd.parsePacketEx (skb.bytes.drop off) = some info)
    (hf : pkt.fragment = false) (h4 : info.ipHeader.isSome ↔ pkt.ver = .v4)
    (h6 : info.ipv6Header.isSome ↔ pkt.ver = .v6)
    (hp : HasTransport pkt.ver proto)
    (ht : hasTransport info proto ≠ (pkt.proto == proto)) : ¬SoundFor cfg skb direction off := by
  intro hs
  let h := networkHandle 0 noFlags_valid (presence proto (hasTransport info proto))
  have ⟨hc, hn⟩ : Compiled h.filter.object ∧ _ := presence_compiled hp
  have hload : h.loadRules = some (_, _) := rfl
  have hd : Addressed (plainAddress direction (isLo cfg skb) (pkt.ver = .v6)) direction
    (isLo cfg skb) := ⟨rfl, rfl, rfl⟩
  have hacc : Wd.filterEval h.filter 0 (skb.bytes.drop off)
      (plainAddress direction (isLo cfg skb) (pkt.ver = .v6)) = some true :=
    filterEval_presence hi h4 h6
  have hm := hs rfl hc hn hload hd hacc
  exact ht (matched_presence action_isAction hk hf hp hm).symm

end Presence

end Handle
