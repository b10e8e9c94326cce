import EbpfDivert.Prefilter.Theorems.Lower

open Wd (Insn)

namespace Prefilter

variable {p : PfPkt} {x : Wd.Input} {insn : Insn} {object : List Insn} {f : Wd.Filter}

-- The evaluator's input for a packet with these fields and nothing else of interest.
def PfPkt.input (p : PfPkt) : Wd.Input where
  layer        := .network
  timestamp    := 0
  event        := 0
  ipv4         := p.ver = .v4
  outbound     := p.direction = .outbound
  loopback     := p.loopback
  impostor     := false
  fragment     := false
  networkData  := ⟨0, 0⟩
  flowData     := ⟨0, 0, 0, .zero, .zero, 0, 0, 0⟩
  socketData   := ⟨0, 0, 0, .zero, .zero, 0, 0, 0⟩
  reflectData  := ⟨0, 0, .network, 0, 0⟩
  ipHeader     := if p.ver = .v4 then some { Wd.IpHdr.decode [] with
    srcAddr := p.src.word 0, dstAddr := p.dst.word 0, ttl := p.ttl, protocol := p.proto } else none
  ipv6Header   := if p.ver = .v6 then some { Wd.Ipv6Hdr.decode [] with
    srcAddr := p.src, dstAddr := p.dst, hopLimit := p.ttl, nextHdr := p.proto } else none
  icmpHeader   := if p.ver = .v4 ∧ p.proto = Wd.ipprotoIcmp then some { Wd.IcmpHdr.decode [] with
    type := p.sport.setWidth 8, code := p.dport.setWidth 8 } else none
  icmpv6Header := if p.ver = .v6 ∧ p.proto = Wd.ipprotoIcmpv6 then some { Wd.IcmpHdr.decode [] with
    type := p.sport.setWidth 8, code := p.dport.setWidth 8 } else none
  tcpHeader    := if p.proto = Wd.ipprotoTcp then some { Wd.TcpHdr.decode [] with
    srcPort := p.sport, dstPort := p.dport
    fin := p.tcpFlags.getLsbD 0, syn := p.tcpFlags.getLsbD 1, rst := p.tcpFlags.getLsbD 2
    psh := p.tcpFlags.getLsbD 3, ack := p.tcpFlags.getLsbD 4, urg := p.tcpFlags.getLsbD 5 } else none
  udpHeader    := if p.proto = Wd.ipprotoUdp then some { Wd.UdpHdr.decode [] with
    srcPort := p.sport, dstPort := p.dport } else none
  protocol     := p.proto
  packet       := []
  headerLen    := 0
  payloadLen   := 0
  hash         := 0

-- What is possible in a parsed packet: IPv4 addresses are mapped, and ICMP has a type and a code.
structure PfPkt.Valid (p : PfPkt) : Prop where
  mapped : p.ver = .v4 → p.src.isMappedIpv4 ∧ p.dst.isMappedIpv4
  icmp   : p.Has .icmp ∨ p.Has .icmpv6 → p.sport.toNat < 256 ∧ p.dport.toNat < 256

instance : Decidable p.Valid :=
  decidable_of_iff ((p.ver = .v4 → p.src.isMappedIpv4 ∧ p.dst.isMappedIpv4) ∧
      ((p.ver = .v4 ∧ p.proto = Wd.ipprotoIcmp) ∨ (p.ver = .v6 ∧ p.proto = Wd.ipprotoIcmpv6) →
        p.sport.toNat < 256 ∧ p.dport.toNat < 256))
    ⟨fun ⟨h₁, h₂⟩ => ⟨h₁, h₂⟩, fun ⟨h₁, h₂⟩ => ⟨h₁, h₂⟩⟩

theorem PfPkt.Valid.describes (h : p.Valid) : Describes p p.input := by
  have icmp (hi : p.Has .icmp ∨ p.Has .icmpv6) :
      p.sport = (p.sport.setWidth 8).setWidth 16 ∧ p.dport = (p.dport.setWidth 8).setWidth 16 := by
    have := h.icmp hi
    constructor <;> apply BitVec.eq_of_toNat_eq <;> simp <;> omega
  constructor
  case layer    => exact .inl rfl
  case event    => rfl
  case outbound => rfl
  case loopback => rfl
  case headers =>
    intro h
    cases h <;> simp [PfPkt.input, Wd.Input.hasHeader, PfPkt.Has]
  all_goals simp only [PfPkt.input, Option.mem_def, Option.ite_none_right_eq_some, Option.some.injEq]
  case ip =>
    rintro _ ⟨hv, rfl⟩
    obtain ⟨hs, hd⟩ := h.mapped hv
    exact ⟨Words.eq_mapped hs, Words.eq_mapped hd, rfl, rfl⟩
  case ipv6 =>
    rintro _ ⟨_, rfl⟩
    exact ⟨rfl, rfl, rfl⟩
  case ports =>
    refine ⟨?_, ?_, ?_, ?_⟩ <;> rintro _ ⟨hp, rfl⟩
    case refine_1 => exact ⟨rfl, rfl⟩
    case refine_2 => exact ⟨rfl, rfl⟩
    case refine_3 => exact icmp (.inl hp)
    case refine_4 => exact icmp (.inr hp)
  case tcpFlags =>
    rintro _ ⟨_, rfl⟩
    exact ⟨rfl, rfl, rfl, rfl, rfl, rfl⟩

-- The fields whose value is an address of the packet.
def isAddrField (f : Wd.Field) : Bool :=
  f ∈ [.localAddr, .remoteAddr, .ipSrcAddr, .ipDstAddr, .ipv6SrcAddr, .ipv6DstAddr]

instance : DecidablePred p.Shows := fun f => by
  unfold PfPkt.Shows
  split <;> infer_instance

-- The answers that the packet would give with the addresses of `p`. On IPv4 only a mapped address can
-- be the value of an address field.
def answerAt (x : Wd.Input) (p : PfPkt) (insn : Insn) : Option Bool :=
  match insn.field with
  | .localAddr  => some (decide (insn.test.Sat (p.addr (p.useSrc true)).value insn.arg.value))
  | .remoteAddr => some (decide (insn.test.Sat (p.addr (p.useSrc false)).value insn.arg.value))
  | .ipSrcAddr | .ipDstAddr | .ipv6SrcAddr | .ipv6DstAddr =>
    if p.Shows insn.field then
      some (decide ((∃ h ∈ trackedHeader insn.field, p.Has h) ∧
        insn.test.Sat (p.value insn.field) insn.arg.value))
    else none
  | _ => Wd.answer x insn

theorem answerAt_other (h : isAddrField insn.field = false) : answerAt x p insn = Wd.answer x insn := by
  obtain ⟨f, _, _, _, _, _⟩ := insn
  cases f <;> first | rfl | cases h

theorem isAddrField_cases (h : isAddrField insn.field) :
    (∃ l, insn.field = addrField l) ∨ ∃ v4 useSrc, insn.field = ipAddrField v4 useSrc := by
  obtain ⟨f, _, _, _, _, _⟩ := insn
  cases f <;> simp [isAddrField] at h
  case localAddr   => exact .inl ⟨true, rfl⟩
  case remoteAddr  => exact .inl ⟨false, rfl⟩
  case ipSrcAddr   => exact .inr ⟨true, true, rfl⟩
  case ipDstAddr   => exact .inr ⟨true, false, rfl⟩
  case ipv6SrcAddr => exact .inr ⟨false, true, rfl⟩
  case ipv6DstAddr => exact .inr ⟨false, false, rfl⟩

theorem answerAt_ip {v4 useSrc : Bool} (hf : insn.field = ipAddrField v4 useSrc) : answerAt x p insn =
    if p.Shows insn.field then
      some (decide ((∃ h ∈ trackedHeader insn.field, p.Has h) ∧
        insn.test.Sat (p.value insn.field) insn.arg.value))
    else none := by
  obtain ⟨f, _, _, _, _, _⟩ := insn
  obtain rfl : f = ipAddrField v4 useSrc := hf
  cases v4 <;> cases useSrc <;> rfl

theorem trackedHeader_ipAddrField (v4 useSrc : Bool) :
    trackedHeader (ipAddrField v4 useSrc) = some (if v4 then .ip else .ipv6) := by
  cases v4 <;> cases useSrc <;> rfl

namespace Reads

variable {answer answer' : Option Bool} {src dst : Words}

-- The other fields do not depend on the addresses.
theorem moved (h : Reads p insn answer) (hf : isAddrField insn.field = false) :
    Reads (p.moved src dst) insn answer := by
  have hv : (p.moved src dst).value insn.field = p.value insn.field := by
    obtain ⟨f, _, _, _, _, _⟩ := insn
    cases f <;> first | rfl | cases hf
  have hs : (p.moved src dst).Shows insn.field ↔ p.Shows insn.field := by
    obtain ⟨f, _, _, _, _, _⟩ := insn
    cases f <;> first | exact .rfl | cases hf
  exact { h with
    presence := fun hp he b => hv ▸ h.presence hp he b
    tracked  := fun hd hm hr b => by
      rw [hs, hv]
      exact h.tracked hd hm hr b
    addr     := fun l hl => by cases l <;> simp [hl, addrField, isAddrField] at hf }

-- The answers on the addresses are determined.
theorem unique (h : Reads p insn answer) (h' : Reads p insn answer') (hf : isAddrField insn.field)
    (hn : insn.neg = false) : answer = answer' := by
  refine Option.ext fun b => ?_
  rcases isAddrField_cases hf with ⟨l, hl⟩ | ⟨v4, useSrc, hi⟩
  case inl => exact (h.addr l hl hn b).trans (h'.addr l hl hn b).symm
  case inr =>
    have ht := hi ▸ trackedHeader_ipAddrField v4 useSrc
    exact (h.tracked _ ht (by simp [hn]) b).trans (h'.tracked _ ht (by simp [hn]) b).symm

end Reads

section

variable (hv : x.layer = .network ∨ Wd.validateField x.layer insn.field)
variable (ht : insn.test ≠ .other) (hn : insn.neg = false) (d : Describes p x)
include hv ht hn d

theorem reads_answerAt (src dst : Words) :
    Reads (p.moved src dst) insn (answerAt x (p.moved src dst) insn) := by
  have hr := pfAnswer_unsigned hn ▸ d.reads ht hv
  cases hf : isAddrField insn.field
  case false => exact answerAt_other hf ▸ hr.moved hf
  case true =>
    generalize p.moved src dst = q
    have some_iff {φ : Prop} [Decidable φ] (b : Bool) : some (decide φ) = some b ↔ (b ↔ φ) := by
      cases b <;> simp
    obtain ⟨f, test, s, f', neg, arg⟩ := insn
    obtain rfl : neg = false := hn
    rcases isAddrField_cases hf with ⟨l, hl⟩ | ⟨v4, useSrc, hi⟩
    case inl =>
      obtain rfl : f = addrField l := hl
      have ha (b : Bool) : answerAt x q ⟨addrField l, test, s, f', false, arg⟩ = some b ↔
          (b ↔ test.Sat (q.addr (q.useSrc l)).value arg.value) := by
        cases l <;> exact some_iff b
      constructor
      case addr =>
        intro l' hl' _ b
        obtain rfl : l = l' := by cases l <;> cases l' <;> first | rfl | cases hl'
        exact ha b
      all_goals cases l <;>
        simp [addrField, portField, isPresence, trackedHeader, Wd.Field.header]
    case inr =>
      obtain rfl : f = ipAddrField v4 useSrc := hi
      have ha (b : Bool) : answerAt x q ⟨ipAddrField v4 useSrc, test, s, f', false, arg⟩ = some b ↔
          q.Shows (ipAddrField v4 useSrc) ∧ (b ↔ (∃ h ∈ trackedHeader (ipAddrField v4 useSrc), q.Has h) ∧
            test.Sat (q.value (ipAddrField v4 useSrc)) arg.value) := by
        rw [answerAt_ip rfl, Option.ite_none_right_eq_some, some_iff]
      constructor
      case tracked =>
        intro h hh _ b
        have ho : operand ⟨ipAddrField v4 useSrc, test, s, f', false, arg⟩ = arg.value := by
          cases v4 <;> cases useSrc <;> rfl
        have hh : trackedHeader (ipAddrField v4 useSrc) = some h := hh
        rw [ha, hh, ho]
        simp
      case absent =>
        intro h hh ht
        obtain ⟨h', hh', hh''⟩ := (((ha true).mp ht).right.mp rfl).left
        exact Option.some.inj ((trackedHeader_header hh').symm.trans hh) ▸ hh''
      all_goals cases v4 <;> cases useSrc <;>
        simp [ipAddrField, isPresence, trackedHeader, addrField, portField]

theorem answerAt_self : answerAt x p insn = Wd.answer x insn := by
  cases hf : isAddrField insn.field
  case false => exact answerAt_other hf
  case true =>
    have hr : Reads (p.moved p.src p.dst) insn _ := reads_answerAt hv ht hn d p.src p.dst
    exact hr.unique (pfAnswer_unsigned hn ▸ d.reads ht hv) hf hn

end

theorem pfLower_eq (d : Describes p x) (hl : x.layer = f.layer) :
    pfLower f = some (pfLowerObject f.object) :=
  if_pos (hl ▸ d.layer)

theorem ne_addrField (h : ∀ insn ∈ object, insn.field ≠ .localAddr ∧ insn.field ≠ .remoteAddr) :
    ∀ insn ∈ object, ∀ isLocal, insn.field ≠ addrField isLocal := by
  intro insn hi isLocal
  have := h insn hi
  cases isLocal <;> simp_all [addrField]

-- `outbound and tcp.DstPort == 443`
def httpsFilter : Wd.Filter where
  layer  := .network
  object :=
    [⟨.outbound, .eq, 1, Wd.resultReject, false, .ofNarrow 1⟩,
     ⟨.tcpDstPort, .eq, Wd.resultAccept, Wd.resultReject, false, .ofNarrow 443⟩]

def httpsPkt : PfPkt where
  ver       := .v4
  src       := .mapped 0x0A000001
  dst       := .mapped 0xC0000201
  sport     := 49152
  dport     := 443
  proto     := Wd.ipprotoTcp
  direction := .outbound
  loopback  := false
  ttl       := 64
  tcpFlags  := 0x02

theorem Describes.reads_answer {b : Bool} (d : Describes p x) (ht : insn.test ≠ .other)
    (he : pfAnswer p x insn = Wd.answer x insn) (hb : Wd.answer x insn = some b) :
    Reads p insn (Wd.answer x insn) := by
  refine he ▸ d.reads ht (.inr ?_)
  by_contra hv
  simp [Wd.answer, hv] at hb

theorem not_meets {answer : Insn → Option Bool}
    (ha : ∀ insn ∈ object, ∀ isLocal, insn.field ≠ addrField isLocal) :
    ¬Meets object answer fun insn known => Misguessed p insn known ∨ Blotted p insn known := by
  rintro ⟨_, _, insn, _, hi, ⟨_, l, hf, _⟩ | ⟨_, l, hf, _⟩⟩
  case inl => exact ha insn (List.mem_of_getElem? hi) l hf
  case inr => exact ha insn (List.mem_of_getElem? hi) l hf

theorem pfMatch_of_executes (ho : Compiled object) (d : Describes p x)
    (ok : Overflows object ∨ ¬Meets object (Wd.answer x) fun insn known =>
      Misguessed p insn known ∨ Blotted p insn known)
    (h : Wd.executeFilter object x = some true) : pfMatch (pfLowerObject object) p := by
  refine pfMatch_of_accepts ho.serialized d (fun _ hi hb => ?_) ok
    ((Wd.executeFilter_eq_true_iff ho.toProper).mp h)
  have hi := List.mem_of_getElem? hi
  exact d.reads_answer (ho.test _ hi) (pfAnswer_mayBeNeg (ho.neg _ hi)) hb

theorem pfMatch_sound (ho : Compiled object) (d : Describes p x)
    (ha : ∀ insn ∈ object, insn.field ≠ .localAddr ∧ insn.field ≠ .remoteAddr)
    (h : Wd.executeFilter object x = some true) : pfMatch (pfLowerObject object) p :=
  pfMatch_of_executes ho d (.inr (not_meets (ne_addrField ha))) h

-- The filter accepts the packet with other addresses, which the rules mistake its own for.
def Confused (object : List Insn) (x : Wd.Input) (p : PfPkt) : Prop :=
  ∃ src dst useSrc, (Wd.graph object).Accepts (answerAt x (p.moved src dst)) 0 ∧
    Mistaken p.ver (Twins object (answerAt x) (p.moved src dst) useSrc) (p.addr useSrc)

theorem executes_of_pfMatch (ho : Plain object) (d : Describes p x)
    (hv : ∀ insn ∈ object, x.layer = .network ∨ Wd.validateField x.layer insn.field)
    (hc : Confused object x p → Wd.executeFilter object x = some true)
    (hx : (pfLowerObject object).exact) (h : pfMatch (pfLowerObject object) p) :
    Wd.executeFilter object x = some true := by
  have hs := ho.compiled.serialized
  have reads src dst insn (hi : insn ∈ object) :
      Reads (p.moved src dst) insn (answerAt x (p.moved src dst) insn) :=
    reads_answerAt (hv insn hi) (hs.test insn hi) (ho.neg insn hi) d src dst
  obtain ⟨src, dst, hacc, hside⟩ := accepts_of_pfMatch hs reads d hx h
  by_cases hm : ∃ useSrc,
      Mistaken p.ver (Twins object (answerAt x) (p.moved src dst) useSrc) (p.addr useSrc)
  case pos =>
    obtain ⟨useSrc, hm⟩ := hm
    exact hc ⟨src, dst, useSrc, hacc, hm⟩
  case neg =>
    have own useSrc := (hside useSrc).resolve_right fun h => hm ⟨useSrc, h⟩
    obtain rfl : src = p.src := own true
    obtain rfl : dst = p.dst := own false
    refine (Wd.executeFilter_eq_true_iff ho.toProper).mpr ?_
    refine (DecisionGraph.Alike.accepts_iff fun _ insn _ hi => ?_).mp hacc
    have hi := List.mem_of_getElem? hi
    exact answerAt_self (hv insn hi) (hs.test insn hi) (ho.neg insn hi) d

-- The addresses that a test on an IPv4 address reads.
theorem answerAt_congr {q q' : PfPkt} (hv : q.ver = q'.ver)
    (hf : isAddrField insn.field → ∃ s, insn.field = ipAddrField true s ∧
      (q.ver = .v4 → q.addr s = q'.addr s)) : answerAt x q insn = answerAt x q' insn := by
  cases ha : isAddrField insn.field
  case false => rw [answerAt_other ha, answerAt_other ha]
  case true =>
    obtain ⟨s, hs, hq⟩ := hf ha
    obtain ⟨f, test, _, _, neg, arg⟩ := insn
    obtain rfl : f = ipAddrField true s := hs
    cases h4 : q.ver
    case v4 =>
      have hq := hq h4
      cases s <;> simp_all [answerAt, ipAddrField, PfPkt.Shows, trackedHeader, PfPkt.Has, PfPkt.value,
        PfPkt.addr]
    case v6 =>
      have h6 : q'.ver = .v6 := hv ▸ h4
      cases s <;> simp [answerAt, ipAddrField, PfPkt.Shows, trackedHeader, PfPkt.Has, h4, h6]

-- Without tests on the local or remote address or on IPv6 addresses nothing is mistaken.
theorem not_confused (ha : ∀ insn ∈ object, ∀ isLocal, insn.field ≠ addrField isLocal)
    (h6 : ∀ insn ∈ object, insn.field ≠ .ipv6SrcAddr ∧ insn.field ≠ .ipv6DstAddr) :
    ¬Confused object x p := by
  rintro ⟨src, dst, useSrc, hacc, hmis⟩
  have hver : (p.moved src dst).ver = p.ver := rfl
  generalize p.moved src dst = q at hacc hmis hver
  -- The IPv4 address fields are the only ones that read an address, and only mapped ones.
  have field {n insn} (hvis : (Wd.graph object).Visits (answerAt x q) 0 n) (hi : object[n]? = some insn)
      (hf : isAddrField insn.field) :
      ∃ s, insn.field = ipAddrField true s ∧ (q.ver = .v4 → (q.addr s).isMappedIpv4) := by
    have hi' := List.mem_of_getElem? hi
    rcases isAddrField_cases hf with ⟨l, hl⟩ | ⟨v4, s, hs⟩
    case inl => exact absurd hl (ha insn hi' l)
    case inr =>
      have := h6 insn hi'
      obtain rfl : v4 = true := by cases v4 <;> cases s <;> simp_all [ipAddrField]
      refine ⟨s, hs, ?_⟩
      have hsome := hacc.isSome_of_visits hvis hi
      rw [answerAt_ip hs] at hsome
      split_ifs at hsome with hsh
      case pos =>
        rw [hs] at hsh
        cases s <;> exact hsh
      case neg => simp at hsome
  have twin (hq : q.ver = .v4 → ¬(q.addr useSrc).isMappedIpv4) (v : Words) :
      v ∈ Twins object (answerAt x) q useSrc := by
    intro n insn hvis hi
    obtain ⟨src', dst', hset, haddr⟩ := q.setAddr_eq useSrc v
    rw [hset]
    refine answerAt_congr rfl fun hf => ?_
    obtain ⟨s, hs, hm⟩ := field hvis hi hf
    refine ⟨s, hs, fun h4 => ?_⟩
    rw [haddr, if_neg]
    rintro rfl
    exact hq h4 (hm h4)
  rw [← hver] at hmis
  cases hv : q.ver <;> rw [hv] at hmis
  case v4 =>
    by_cases hm : (q.addr useSrc).isMappedIpv4
    case pos =>
      refine hmis.left (q.addr useSrc) (fun _ _ _ _ => ?_) hm
      cases useSrc <;> rfl
    case neg =>
      exact hmis.left (.mapped 0) (twin (fun _ => hm) _) Words.isMappedIpv4_mapped
  case v6 =>
    obtain ⟨hnm, y, hs, _⟩ := hmis
    have := twin (by simp [hv]) (p.addr useSrc)
    rw [hs] at this
    exact hnm this.left

-- The lowered rules lose no packet that the filter accepts.
theorem pfLower_sound (ho : Plain f.object) (hl : x.layer = f.layer) (d : Describes p x)
    (ha : ∀ insn ∈ f.object, insn.field ≠ .localAddr ∧ insn.field ≠ .remoteAddr)
    (h : Wd.executeFilter f.object x = some true) :
    ∃ res, pfLower f = some res ∧ pfMatch res p = true :=
  ⟨_, pfLower_eq d hl, pfMatch_sound ho.compiled d ha h⟩

theorem pfLower_sound_https : Wd.executeFilter httpsFilter.object httpsPkt.input = some true ∧
    ∃ res, pfLower httpsFilter = some res ∧ pfMatch res httpsPkt = true :=
  ⟨by decide, pfLower_sound (x := httpsPkt.input) (by decide) rfl
    (PfPkt.Valid.describes (by decide)) (by decide) (by decide)⟩

-- An exact lowering decides as the filter does, so user space need not look at the packet again.
theorem pfLower_exact {res : PfResult} (ho : Plain f.object) (hl : x.layer = f.layer)
    (d : Describes p x) (hv : ∀ insn ∈ f.object, Wd.validateField f.layer insn.field)
    (ha : ∀ insn ∈ f.object, insn.field ≠ .localAddr ∧ insn.field ≠ .remoteAddr)
    (h6 : ∀ insn ∈ f.object, insn.field ≠ .ipv6SrcAddr ∧ insn.field ≠ .ipv6DstAddr)
    (hr : pfLower f = some res) (hx : res.exact = true) :
    pfMatch res p = true ↔ Wd.executeFilter f.object x = some true := by
  obtain rfl := Option.some.inj <| (pfLower_eq d hl).symm.trans hr
  refine ⟨executes_of_pfMatch ho d (fun insn hi => .inr (hl ▸ hv insn hi)) (fun h => ?_) hx,
    pfMatch_sound ho.compiled d ha⟩
  exact absurd h (not_confused (ne_addrField ha) h6)

theorem pfLower_exact_https : ∃ res, pfLower httpsFilter = some res ∧ res.exact = true ∧
    (pfMatch res httpsPkt = true ↔
      Wd.executeFilter httpsFilter.object httpsPkt.input = some true) :=
  ⟨_, rfl, by decide, pfLower_exact (x := httpsPkt.input) (f := httpsFilter) (by decide) rfl
    (PfPkt.Valid.describes (by decide)) (by decide) (by decide) (by decide) rfl (by decide)⟩

-- `ip and localAddr != 2001:db8::a00:2`
def sparedFilter : Wd.Filter where
  layer  := .network
  object :=
    [⟨.ip, .eq, 1, Wd.resultReject, false, .ofNarrow 1⟩,
     ⟨.localAddr, .neq, Wd.resultAccept, Wd.resultReject, false, .of 0x0A000002 0 0 0x20010DB8⟩]

-- `ip and localAddr != 2001:db8::a00:1`
def lossyFilter : Wd.Filter where
  layer  := .network
  object :=
    [⟨.ip, .eq, 1, Wd.resultReject, false, .ofNarrow 1⟩,
     ⟨.localAddr, .neq, Wd.resultAccept, Wd.resultReject, false, .of 0x0A000001 0 0 0x20010DB8⟩]

end Prefilter
