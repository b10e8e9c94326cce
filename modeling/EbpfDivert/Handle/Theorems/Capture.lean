import EbpfDivert.Handle.Theorems.Fate
import EbpfDivert.Handle.Theorems.Headers

open Shared Prefilter Kernel

namespace Prefilter

variable {p : PfPkt} {x : Wd.Input} {object : List Wd.Insn} {ver : IpVer} {insn : Wd.Insn}

-- The lowering finds that the filter can accept packets of a family, or does not find out.
def Survives (object : List Wd.Insn) (ver : IpVer) : Prop :=
  Overflows object ∨
    ∃ c, (Wd.graph object).Leads (pfBranch false) 0 .init c ∧ ∀ v ∈ c.ver, v = ver

-- The fields on which `pf_branch` looks at the outcome of a test.
def expressible (f : Wd.Field) : Bool :=
  f = .zero ∨ isPresence f ∨ (trackedHeader f).isSome ∨
    f ∈ [.localAddr, .remoteAddr, .localPort, .remotePort]

-- A whole packet of the family would be accepted, if the tests on all other fields may come out in any
-- way that its headers allow. No IPv4-mapped address of an IPv6 packet is misguessed on the way.
def Imagines (object : List Wd.Insn) (ver : IpVer) : Prop :=
  ∃ p x answer, Describes p x ∧ p.ver = ver ∧
    (∀ insn ∈ object, if expressible insn.field then answer insn = Wd.answer x insn
      else ∀ h ∈ insn.field.header, answer insn = some true → p.Has h) ∧
    ¬Meets object answer (Misguessed p) ∧ (Wd.graph object).Accepts answer 0

-- Of the other fields the lowering only knows the header.
theorem Reads.of_not_expressible {answer : Option Bool} (he : expressible insn.field = false)
    (ha : ∀ h ∈ insn.field.header, answer = some true → p.Has h) : Reads p insn answer := by
  obtain ⟨⟨hz, hp, ht⟩, hl⟩ : Untracked insn.field ∧
      ∀ l, insn.field ≠ addrField l ∧ insn.field ≠ portField l := by
    cases treatment insn.field
    case widen hu hl _  => exact ⟨hu, hl⟩
    case zero hz        => simp [expressible, hz] at he
    case presence hp    => simp [expressible, hp] at he
    case tracked ht     => simp [expressible, ht] at he
    case addr isLocal h => cases isLocal <;> simp [expressible, h, addrField] at he
    case port isLocal h => cases isLocal <;> simp [expressible, h, portField] at he
  constructor
  case zero     => exact fun h => h.elim (absurd · hz) fun he => by simp [he, isPresence] at hp
  case presence => exact fun h => by simp [hp] at h
  case rejected => exact fun h hh => by simp [ht] at hh
  case tracked  => exact fun h hh => by simp [ht] at hh
  case addr     => exact fun l h => absurd h (hl l).left
  case port     => exact fun l h => absurd h (hl l).right
  case endpoint => exact fun l h => h.elim (absurd · (hl l).left) (absurd · (hl l).right)
  case absent   => exact ha

theorem Imagines.survives (ho : Compiled object) (h : Imagines object ver) : Survives object ver := by
  obtain ⟨p, x, answer, d, rfl, hans, hok, hacc⟩ := h
  have reads {n : Nat} {insn : Wd.Insn} {b : Bool} (hi : object[n]? = some insn)
      (hb : answer insn = some b) : Reads p insn (answer insn) := by
    have hi := List.mem_of_getElem? hi
    have ha := hans insn hi
    split_ifs at ha with he
    case pos =>
      rw [ha] at hb ⊢
      exact d.reads_answer (ho.test insn hi) (pfAnswer_mayBeNeg (ho.neg insn hi)) hb
    case neg => exact .of_not_expressible (by simpa using he) ha
  obtain ⟨c, hl, hm, _⟩ := exists_leads ho.serialized d (fun _ => reads) hok hacc
  exact .inr ⟨c, hl, hm.ver⟩

-- A filter that accepts some whole packet of the family is such a one.
theorem imagines_of_executes (ho : Compiled object) (d : Describes p x)
    (hok : ¬Meets object (Wd.answer x) (Misguessed p)) (h : Wd.executeFilter object x = some true) :
    Imagines object p.ver := by
  refine ⟨p, x, Wd.answer x, d, rfl, fun insn hi => ?_, hok,
    (Wd.executeFilter_eq_true_iff ho.toProper).mp h⟩
  split_ifs
  case pos => rfl
  case neg =>
    intro hd hh ha
    have hr := d.reads_answer (ho.test insn hi) (pfAnswer_mayBeNeg (ho.neg insn hi)) ha
    exact hr.absent hd hh ha

end Prefilter

-- Which packets a handle takes away from the kernel.
namespace Handle

variable {res : PfResult} {pkt : ParsedPacket} {direction : Dir} {h h' : Handle}
variable {t : Tables} {env : Env} {kenv : Kernel.Env} {c : ConfigEnv} {skb : Skb} {flags : BitVec 16}
variable {object : List Wd.Insn} {ver : IpVer} {off : Nat}

theorem rulesOf_ne_nil : rulesOf (pfLowerObject object) ver ≠ [] ↔ Survives object ver := by
  have hl := lowered object
  generalize pfLowerObject object = out at hl
  cases hl
  case overflow ho =>
    exact iff_of_true (by cases ver <;> simp [rulesOf, PfResult.matchAll]) (.inl ho)
  case rules cs hn hc he =>
    rw [Survives, or_iff_right hn]
    simp only [← hc]
    have image {α : Type} {f : Cube → α} {φ : Cube → Prop} :
        (∃ r, ∃ c ∈ cs, φ c ∧ r = f c) ↔ ∃ c ∈ cs, φ c := by
      simp
    cases ver
    case v4 =>
      have hv (c : Cube) : (∀ v ∈ c.ver, v = .v4) ↔ c.ver ≠ some .v6 := by
        rcases c.ver with _ | _ | _ <;> simp
      rw [rulesOf, Ne, List.map_eq_nil_iff, List.eq_nil_iff_forall_not_mem, not_forall_not]
      simp only [hv, he.v4, PfResult.empty, List.not_mem_nil, false_or]
      exact image
    case v6 =>
      have hv (c : Cube) : (∀ v ∈ c.ver, v = .v6) ↔ c.ver ≠ some .v4 := by
        rcases c.ver with _ | _ | _ <;> simp
      rw [rulesOf, Ne, List.map_eq_nil_iff, List.eq_nil_iff_forall_not_mem, not_forall_not]
      simp only [hv, he.v6, PfResult.empty, List.not_mem_nil, false_or]
      exact image

-- The verdict of a handle that drops.
theorem drop_act (hload : h.loadRules = some (t, h')) (hres : pfLower h.filter = some res)
    (hdrop : Flags.has h.flags flagDrop)
    (hg : gate kenv (h.config c) skb direction = some (flags, pkt)) :
    (processPacket kenv (h.config c) t skb direction).act =
      if decider res pkt direction = none then .unspec
      else if res.exact ∧ pkt.fragment = false then .shot
      else if skb.len ≤ divertMaxPacket ∧ kenv.reserveOk then .stolen else .unspec := by
  have hsn := h.drop_sniff hdrop
  have hrun : Loaded h res kenv _ skb pkt direction flags _ := processPacket_loaded hload hres hg
  generalize processPacket kenv (h.config c) t skb direction = out at hrun
  cases hrun
  case none hd => simp [hd, Outcome.pass]
  case some hd hms hmd ha =>
    simp only [hsn, hdrop, Bool.true_and] at hms hmd
    rw [if_neg (Option.isSome_iff_ne_none.mp hd)]
    cases ha
    case drop hd =>
      rw [if_pos (by simpa [hd] using hmd.symm)]
    case pass hd hf =>
      rw [if_neg (by simpa [hd] using hmd.symm), if_neg]
      case hnc =>
        rintro ⟨hl, hr⟩
        rcases hf with ⟨hf, _⟩ | hf
        case inl => exact absurd hl (Nat.not_le.mpr hf)
        case inr => simp [hr] at hf
      rfl
    case sniff hs _ => simp [hms] at hs
    case divert hd _ hr hl => rw [if_neg (by simpa [hd] using hmd.symm), if_pos ⟨hl, hr⟩]

-- When this is the verdict of a filter that accepts the packet or does not.
theorem drop_act_iff (accepted : Bool) (hload : h.loadRules = some (t, h'))
    (hres : pfLower h.filter = some res) (hdrop : Flags.has h.flags flagDrop)
    (hg : gate kenv (h.config c) skb direction = some (flags, pkt)) :
    (processPacket kenv (h.config c) t skb direction).act =
        (if accepted then .shot else .unspec) ↔
      if accepted then res.exact ∧ pkt.fragment = false ∧ (decider res pkt direction).isSome
      else decider res pkt direction = none ∨
        (res.exact → pkt.fragment) ∧ ¬(skb.len ≤ divertMaxPacket ∧ kenv.reserveOk) := by
  rw [drop_act hload hres hdrop hg]
  cases decider res pkt direction
  case none => cases accepted <;> simp
  case some _ =>
    by_cases hr : skb.len ≤ divertMaxPacket ∧ kenv.reserveOk <;>
      cases accepted <;> cases res.exact <;> cases pkt.fragment <;> simp [hr]

-- Whether the filter accepts a packet that gets past the checks before the rules.
def wants (env : Env) (kenv : Kernel.Env) (h : Handle) (c : ConfigEnv) (skb : Skb)
    (direction : Dir) : Bool :=
  (gate kenv (h.config c) skb direction).any fun (flags, pkt) =>
    h.accepts env (pktHeader kenv skb pkt direction flags skb.len) skb.bytes

theorem wants_of_gate (hg : gate kenv (h.config c) skb direction = some (flags, pkt)) :
    h.wants env kenv c skb direction =
      h.accepts env (pktHeader kenv skb pkt direction flags skb.len) skb.bytes := by
  rw [wants, hg, Option.any_some]

theorem recordAddress_ipv6 (hg : gate kenv (h.config c) skb direction = some (flags, pkt)) {n : Nat} :
    (recordAddress env h (pktHeader kenv skb pkt direction flags n) skb.bytes).ipv6 =
      decide (pkt.ver = .v6) := by
  obtain ⟨_, hl, hv⟩ := gate_packet hg
  have hpos : 0 < (skb.bytes.drop pkt.l2Len).length := by
    rw [List.length_drop, ← Skb.len]
    omega
  simp only [recordAddress, pktHeader, Bytes.byte_drop, Nat.add_zero, hv, hpos, true_and]
  cases pkt.ver <;> rfl

section

variable (hl : h.layer = .network) (ho : Plain h.filter.object)
variable (ha : ∀ insn ∈ h.filter.object, insn.field ≠ .localAddr ∧ insn.field ≠ .remoteAddr)
variable (h6 : ∀ insn ∈ h.filter.object, insn.field ≠ .ipv6SrcAddr ∧ insn.field ≠ .ipv6DstAddr)
variable (hres : pfLower h.filter = some res) (hx : res.exact)
variable (heth : Wire.Ethernet skb.bytes off) (hpk : Wire.PacketAt skb.bytes skb.pulled.length off)
include hl ho ha h6 hres hx heth hpk

-- Exact rules decide on an IP packet without extension headers as the filter does.
theorem decider_eq_accepts (hg : gate kenv (h.config c) skb direction = some (flags, pkt)) {n : Nat} :
    pkt.fragment = false ∧ (decider res pkt direction).isSome =
      h.accepts env (pktHeader kenv skb pkt direction flags n) skb.bytes := by
  have hfl : h.filter.layer = .network := h.filter_layer.trans hl
  have hb := pfLower_bare hres
  obtain rfl : pfLowerObject h.filter.object = res := by
    rw [pfLower, if_pos (.inl hfl)] at hres
    exact Option.some.inj hres
  obtain ⟨info, hi, hoff, hlo, hag⟩ : ∃ info, Wd.parsePacketEx (skb.bytes.drop off) = some info ∧
      pkt.l2Len = off ∧ isLo (h.config c) skb = pkt.isLo ∧
      Wire.Agrees pkt { info with protocol := pkt.proto } := by
    obtain ⟨_, _, pkt', _, _, hk, rfl, _⟩ := gate_eq_some hg
    obtain ⟨_, info, hk', hi, hoff, hag⟩ := agrees_of_packetAt heth hpk
    obtain rfl := Option.some.inj (hk.symm.trans hk')
    have hag' : Wire.Agrees pkt' { info with protocol := pkt'.proto } := hag.proto ▸ hag
    exact ⟨info, hi, hoff, rfl, { hag' with }⟩
  have hf : pkt.fragment = false := hag.fragment.left
  obtain rfl := hoff
  generalize hr : recordAddress env h (pktHeader kenv skb pkt direction flags n) skb.bytes = addr
  have hd : Addressed addr.toAddress direction pkt.isLo := hr ▸ hlo ▸ recordAddress_addressed hg
  have hal : addr.toAddress.layer = .network := hr ▸ hl
  have hv : addr.toAddress.ipv6 = info.ipv6Header.isSome := by
    rw [← hr]
    refine (recordAddress_ipv6 hg).trans (Bool.eq_iff_iff.mpr ?_)
    exact decide_eq_true_iff.trans hag.hasIpv6.symm
  have d : Describes _ (addr.toAddress.input env.hash (skb.bytes.drop pkt.l2Len) (some info)) :=
    describes hag hal hd
  refine ⟨hf, ?_⟩
  have he : h.accepts env (pktHeader kenv skb pkt direction flags n) skb.bytes =
      decide (Wd.filterEval h.filter env.hash (skb.bytes.drop pkt.l2Len) addr.toAddress = some true) := by
    rw [accepts, hr]
    rfl
  rw [decider, if_neg (by simp [hf]), hit_isSome_eq hb (sameFields hag), he,
    filterEval_parsed hfl hal hi hv, Bool.eq_iff_iff, decide_eq_true_iff]
  exact ⟨executes_of_pfMatch ho d (fun _ _ => .inl hal)
    (fun hc => absurd hc (not_confused (ne_addrField ha) h6)) hx, pfMatch_sound ho.compiled d ha⟩

end

-- `tcp.PayloadLength > 0`
def payloadObject : List Wd.Insn :=
  [⟨.tcpPayloadLength, .gt, Wd.resultAccept, Wd.resultReject, false, .zero⟩]

def dropSynHandle : Handle :=
  networkHandle flagDrop (by decide) synObject

def dropPayloadHandle : Handle :=
  networkHandle flagDrop (by decide) payloadObject

-- Which packets are recorded if there is room.
theorem record_isSome_iff (hload : h.loadRules = some (t, h')) (hres : pfLower h.filter = some res)
    (hg : gate kenv (h.config c) skb direction = some (flags, pkt))
    (hlen : skb.len ≤ divertMaxPacket) (hr : kenv.reserveOk) :
    (processPacket kenv (h.config c) t skb direction).record.isSome ↔
      (decider res pkt direction).isSome ∧
        ¬(Flags.has h.flags flagDrop && res.exact && !pkt.fragment) := by
  have hrun : Loaded h res kenv _ skb pkt direction flags _ := processPacket_loaded hload hres hg
  generalize processPacket kenv (h.config c) t skb direction = out at hrun
  cases hrun
  case none hd => simp [Outcome.pass, hd]
  case some hd hms hmd ha =>
    rw [and_iff_right hd, ← hmd]
    cases ha
    case drop hd => simp [hd]
    case pass hfail =>
      rcases hfail with ⟨hfail, _⟩ | hfail
      case inl => exact absurd hlen (Nat.not_le.mpr hfail)
      case inr => simp [hr] at hfail
    case sniff hd _ _    => simp [hd]
    case divert hd _ _ _ => simp [hd]

theorem decider_isSome (hres : pfLower h.filter = some res) (hf : pkt.fragment) :
    (decider res pkt direction).isSome ↔ Survives h.filter.object pkt.ver := by
  rw [pfLower] at hres
  split_ifs at hres
  cases hres
  rw [← rulesOf_ne_nil, decider, if_pos hf, List.isSome_head?]

-- `ip.Protocol == 6 and ip.TTL > 1`
def liveObject : List Wd.Insn :=
  [⟨.ipProtocol, .eq, 1, Wd.resultReject, false, .ofNarrow 6⟩,
   ⟨.ipTtl, .gt, Wd.resultAccept, Wd.resultReject, false, .ofNarrow 1⟩]

-- `ip.Protocol == 6 and fragment`
def fragmentObject : List Wd.Insn :=
  [⟨.ipProtocol, .eq, 1, Wd.resultReject, false, .ofNarrow 6⟩,
   ⟨.fragment, .neq, Wd.resultAccept, Wd.resultReject, false, .zero⟩]

-- `ip.Protocol == 6 and not tcp`
def headlessObject : List Wd.Insn :=
  [⟨.ipProtocol, .eq, 1, Wd.resultReject, false, .ofNarrow 6⟩,
   ⟨.tcp, .eq, Wd.resultAccept, Wd.resultReject, false, .zero⟩]

-- The second fragment of a TCP segment from 10.0.0.1 to 192.0.2.1.
def fragmentFrame : Bytes :=
  .replicate 12 2 ++ [0x08, 0x00] ++ [0x45, 0, 0, 28, 0, 1, 0, 185, 64, 6, 0, 0] ++
    [10, 0, 0, 1, 192, 0, 2, 1] ++ .replicate 8 0x55

def fragmentSkb : Skb :=
  { sentSkb fragmentFrame with ifindex := 2 }

def liveHandle : Handle :=
  networkHandle 0 noFlags_valid liveObject

def fragmentHandle : Handle :=
  networkHandle 0 noFlags_valid fragmentObject

def headlessHandle : Handle :=
  networkHandle 0 noFlags_valid headlessObject

end Handle
