import EbpfDivert.Prefilter.Theorems.Cube
import EbpfDivert.Wd.Theorems.Execute

open Wd (Test Field Header Insn)
open Shared (IpVer Dir)

namespace Prefilter

-- The evaluator's input `x` is a whole packet with the parsed fields `p`: transport headers are
-- present exactly when version and protocol say so, and the packet layers only have one event.
-- Everything that `p` does not have is arbitrary in `x`.
structure Describes (p : PfPkt) (x : Wd.Input) : Prop where
  layer    : x.layer = .network ∨ x.layer = .networkForward
  event    : x.event = 0
  outbound : x.outbound = decide (p.direction = .outbound)
  loopback : x.loopback = p.loopback
  headers  : ∀ h, x.hasHeader h ↔ p.Has h
  ip       : ∀ h ∈ x.ipHeader, p.src = .mapped h.srcAddr ∧ p.dst = .mapped h.dstAddr ∧
    p.ttl = h.ttl ∧ p.proto = h.protocol
  ipv6     : ∀ h ∈ x.ipv6Header, p.src = h.srcAddr ∧ p.dst = h.dstAddr ∧ p.ttl = h.hopLimit
  ports    : (∀ h ∈ x.tcpHeader, p.sport = h.srcPort ∧ p.dport = h.dstPort) ∧
    (∀ h ∈ x.udpHeader, p.sport = h.srcPort ∧ p.dport = h.dstPort) ∧
    (∀ h ∈ x.icmpHeader, p.sport = h.type.setWidth 16 ∧ p.dport = h.code.setWidth 16) ∧
    (∀ h ∈ x.icmpv6Header, p.sport = h.type.setWidth 16 ∧ p.dport = h.code.setWidth 16)
  tcpFlags : ∀ h ∈ x.tcpHeader,
    p.tcpFlags.getLsbD 0 = h.fin ∧ p.tcpFlags.getLsbD 1 = h.syn ∧ p.tcpFlags.getLsbD 2 = h.rst ∧
    p.tcpFlags.getLsbD 3 = h.psh ∧ p.tcpFlags.getLsbD 4 = h.ack ∧ p.tcpFlags.getLsbD 5 = h.urg

-- The value of the fields that the lowering looks at.
def PfPkt.value (p : PfPkt) : Field → Nat
  | .inbound  => (decide (p.direction = .inbound)).toNat
  | .outbound => (decide (p.direction = .outbound)).toNat
  | .loopback => p.loopback.toNat
  | .ip       => (decide (p.ver = .v4)).toNat
  | .ipv6     => (decide (p.ver = .v6)).toNat
  | .tcp      => (decide (p.proto = Wd.ipprotoTcp)).toNat
  | .udp      => (decide (p.proto = Wd.ipprotoUdp)).toNat
  | .icmp     => (decide (p.ver = .v4 ∧ p.proto = Wd.ipprotoIcmp)).toNat
  | .icmpv6   => (decide (p.ver = .v6 ∧ p.proto = Wd.ipprotoIcmpv6)).toNat
  | .ipProtocol => p.proto.toNat
  | .ipTtl | .ipv6HopLimit => p.ttl.toNat
  | .tcpSrcPort | .udpSrcPort | .icmpType | .icmpv6Type => p.sport.toNat
  | .tcpDstPort | .udpDstPort | .icmpCode | .icmpv6Code => p.dport.toNat
  | .tcpFin   => (p.tcpFlags.getLsbD 0).toNat
  | .tcpSyn   => (p.tcpFlags.getLsbD 1).toNat
  | .tcpRst   => (p.tcpFlags.getLsbD 2).toNat
  | .tcpPsh   => (p.tcpFlags.getLsbD 3).toNat
  | .tcpAck   => (p.tcpFlags.getLsbD 4).toNat
  | .tcpUrg   => (p.tcpFlags.getLsbD 5).toNat
  | .ipSrcAddr | .ipv6SrcAddr => p.src.value
  | .ipDstAddr | .ipv6DstAddr => p.dst.value
  | _         => 0

-- What the value of a field is compared with: all four words or only the lowest.
def operand (insn : Insn) : Nat :=
  match insn.field with
  | .ipSrcAddr | .ipv6SrcAddr | .ipDstAddr | .ipv6DstAddr | .localAddr | .remoteAddr => insn.arg.value
  | _ => (insn.arg.word 0).toNat

variable {p : PfPkt} {x : Wd.Input} {insn : Insn} {h : Header} {b : Bool} {φ : Prop} {v : Nat}

theorem trackedHeader_header {f : Field} (h' : trackedHeader f = some h) : f.header = some h := by
  cases f <;> cases h' <;> rfl

section Answer

variable {α : Type} {hdr : Option α} {ψ : Prop} [Decidable ψ]

-- A field of a header that need not be there.
theorem answer_header {r : α → Wd.Reading} (hv : Wd.validateField x.layer insn.field)
    (hr : Wd.readField x insn.field insn.arg = .ofHeader hdr r) (hh : hdr.isSome ↔ φ)
    (ha : ∀ a ∈ hdr, Wd.readField x insn.field insn.arg = r a →
      Wd.answer x insn = some (decide ψ)) :
    Wd.answer x insn = some b ↔ (b ↔ φ ∧ ψ) := by
  cases hdr
  case none =>
    rw [Wd.answer_absent hv hr]
    have : ¬φ := by simpa using hh
    cases b <;> simp [this]
  case some a =>
    rw [ha a rfl hr]
    have : φ := by simpa using hh
    cases b <;> simp [this]

variable (hv : Wd.validateField x.layer insn.field) (ht : insn.test ≠ .other)
include hv ht

theorem answer_narrow_header {n : Nat} {g : α → BitVec n} (hw : n ≤ 32)
    (hr : Wd.readField x insn.field insn.arg = .ofHeader hdr fun a => .narrow ((g a).setWidth 32))
    (hh : hdr.isSome ↔ φ) (hg : ∀ a ∈ hdr, v = (g a).toNat) :
    Wd.answer x insn = some b ↔ (b ↔ φ ∧ insn.test.SatSigned insn.neg v (insn.arg.word 0).toNat) :=
  answer_header hv hr hh fun a ha hr => by
    rw [Wd.answer_narrow hv hr ht, hg a ha, BitVec.toNat_setWidth_of_le hw]

theorem answer_flag_header {g : α → Bool}
    (hr : Wd.readField x insn.field insn.arg = .ofHeader hdr fun a => .flag (g a))
    (hh : hdr.isSome ↔ φ) (hg : ∀ a ∈ hdr, v = (g a).toNat) :
    Wd.answer x insn = some b ↔ (b ↔ φ ∧ insn.test.SatSigned insn.neg v (insn.arg.word 0).toNat) :=
  answer_header hv hr hh fun a ha hr => by
    rw [Wd.answer_flag hv hr ht, hg a ha]

theorem answer_wide_header {g : α → Words}
    (hr : Wd.readField x insn.field insn.arg = .ofHeader hdr fun a => .wide (g a))
    (hh : hdr.isSome ↔ φ) (hg : ∀ a ∈ hdr, v = (g a).value) :
    Wd.answer x insn = some b ↔ (b ↔ φ ∧ insn.test.SatSigned insn.neg v insn.arg.value) :=
  answer_header hv hr hh fun a ha hr => by
    rw [Wd.answer_wide hv hr ht, hg a ha]

end Answer

namespace Describes

theorem validateField (d : Describes p x) (hf : trackedHeader insn.field = some h) :
    Wd.validateField x.layer insn.field := by
  have hv : Wd.validateField x.layer insn.field = (x.layer ∈ [.network, .networkForward]) := by
    obtain ⟨f, _, _, _, _, _⟩ := insn
    cases f <;> cases hf <;> exact decide_eq_true_eq
  rw [hv]
  simpa using d.layer

-- A tracked field answers with the value of the packet if its header is there, otherwise with no.
theorem answer_tracked (d : Describes p x) (hf : trackedHeader insn.field = some h)
    (ht : insn.test ≠ .other) :
    Wd.answer x insn = some b ↔
      (b ↔ p.Has h ∧ insn.test.SatSigned insn.neg (p.value insn.field) (operand insn)) := by
  have hv := d.validateField hf
  have ⟨tcp, udp, icmp, icmpv6⟩ := d.ports
  obtain ⟨f, test, _, _, neg, arg⟩ := insn
  cases f <;> cases hf
  case ipTtl | ipProtocol =>
    exact answer_narrow_header hv ht (by decide) rfl (d.headers .ip) fun a ha => by
      simp [PfPkt.value, d.ip a ha]
  case ipSrcAddr | ipDstAddr =>
    exact answer_wide_header hv ht rfl (d.headers .ip) fun a ha => by
      simp [PfPkt.value, d.ip a ha]
  case ipv6HopLimit =>
    exact answer_narrow_header hv ht (by decide) rfl (d.headers .ipv6) fun a ha => by
      simp [PfPkt.value, d.ipv6 a ha]
  case ipv6SrcAddr | ipv6DstAddr =>
    exact answer_wide_header hv ht rfl (d.headers .ipv6) fun a ha => by
      simp [PfPkt.value, d.ipv6 a ha]
  case icmpType | icmpCode =>
    exact answer_narrow_header hv ht (by decide) rfl (d.headers .icmp) fun a ha => by
      simp [PfPkt.value, icmp a ha]
      omega
  case icmpv6Type | icmpv6Code =>
    exact answer_narrow_header hv ht (by decide) rfl (d.headers .icmpv6) fun a ha => by
      simp [PfPkt.value, icmpv6 a ha]
      omega
  case tcpSrcPort | tcpDstPort =>
    exact answer_narrow_header hv ht (by decide) rfl (d.headers .tcp) fun a ha => by
      simp [PfPkt.value, tcp a ha]
  case udpSrcPort | udpDstPort =>
    exact answer_narrow_header hv ht (by decide) rfl (d.headers .udp) fun a ha => by
      simp [PfPkt.value, udp a ha]
  case tcpUrg | tcpAck | tcpPsh | tcpRst | tcpSyn | tcpFin =>
    exact answer_flag_header hv ht rfl (d.headers .tcp) fun a ha => by
      simp only [PfPkt.value, d.tcpFlags a ha]

theorem layered (d : Describes p x) {r : Wd.Reading} {event : Wd.DataFlow → Wd.Reading} :
    x.layered r r event = r := by
  rcases d.layer with hl | hl <;> simp [Wd.Input.layered, hl]

-- The presence fields and the two constant fields always have the value of the packet.
theorem answer_presence (d : Describes p x) (hf : isPresence insn.field ∨ insn.field = .zero)
    (hv : Wd.validateField x.layer insn.field) (ht : insn.test ≠ .other) :
    Wd.answer x insn = some b ↔ (b ↔ insn.test.SatSigned insn.neg (p.value insn.field) (operand insn)) := by
  have flag {f : Bool} (hr : Wd.readField x insn.field insn.arg = .flag f)
      (hp : p.value insn.field = f.toNat) (ho : operand insn = (insn.arg.word 0).toNat) :
      Wd.answer x insn = some b ↔ (b ↔ insn.test.SatSigned insn.neg (p.value insn.field) (operand insn)) := by
    rw [Wd.answer_flag hv hr ht, hp, ho]
    cases b <;> simp
  have header {α : Type} {hdr : Option α} {φ : Prop} [Decidable φ] (hh : hdr.isSome ↔ φ) :
      (decide φ).toNat = hdr.isSome.toNat := by
    cases hs : hdr.isSome <;> simp_all
  obtain ⟨f, test, _, _, neg, arg⟩ := insn
  cases f <;> simp [isPresence] at hf
  case zero     => exact flag (f := false) rfl rfl rfl
  case event    => exact flag (f := false) (by simp [Wd.readField, d.event]; rfl) rfl rfl
  case inbound  => exact flag rfl (by simp [PfPkt.value, d.outbound]; cases p.direction <;> rfl) rfl
  case outbound => exact flag rfl (by simp [PfPkt.value, d.outbound]) rfl
  case loopback => exact flag rfl (by simp [PfPkt.value, d.loopback]) rfl
  case ip       => exact flag (f := x.ipHeader.isSome) rfl (header (d.headers .ip)) rfl
  case ipv6     => exact flag (f := x.ipv6Header.isSome) rfl (header (d.headers .ipv6)) rfl
  case tcp =>
    have hr : Wd.readField x .tcp arg = .flag x.tcpHeader.isSome := by
      simp only [Wd.readField, d.layered]
    exact flag hr (header (d.headers .tcp)) rfl
  case udp =>
    have hr : Wd.readField x .udp arg = .flag x.udpHeader.isSome := by
      simp only [Wd.readField, d.layered]
    exact flag hr (header (d.headers .udp)) rfl
  case icmp =>
    have hr : Wd.readField x .icmp arg = .flag x.icmpHeader.isSome := by
      simp only [Wd.readField, d.layered]
    exact flag hr (header (d.headers .icmp)) rfl
  case icmpv6 =>
    have hr : Wd.readField x .icmpv6 arg = .flag x.icmpv6Header.isSome := by
      simp only [Wd.readField, d.layered]
    exact flag hr (header (d.headers .icmpv6)) rfl

-- A field of a header the packet does not have fails every test.
theorem answer_absent (d : Describes p x) (hf : insn.field.header = some h) (hh : ¬p.Has h) :
    Wd.answer x insn ≠ some true := by
  have hh : x.hasHeader h = false := by rwa [← d.headers, Bool.not_eq_true] at hh
  have hr : Wd.readField x insn.field insn.arg = .absent := by
    obtain ⟨f, _, _, _, _, _⟩ := insn
    cases f <;> cases hf <;>
      simp_all [Wd.readField, Wd.Reading.ofHeader, Wd.Input.hasHeader, Option.isSome_eq_false_iff]
  by_cases hv : Wd.validateField x.layer insn.field
  case pos => simp [Wd.answer_absent hv hr]
  case neg => simp [Wd.answer, hv]

theorem mapped (d : Describes p x) (hv : p.ver = .v4) (useSrc : Bool) :
    (p.addr useSrc).isMappedIpv4 := by
  obtain ⟨h, hh⟩ := Option.isSome_iff_exists.mp <| (d.headers .ip).mpr hv
  have ⟨hs, hd, _⟩ := d.ip h hh
  cases useSrc <;> simp [PfPkt.addr, hs, hd]

theorem endpointAddr (d : Describes p x) {useSrc : Bool} :
    x.endpointAddr useSrc = p.addr useSrc := by
  have h4 := d.headers .ip
  have h6 := d.headers .ipv6
  simp only [Wd.Input.hasHeader, PfPkt.Has] at h4 h6
  cases hh : x.ipHeader <;> cases hh' : x.ipv6Header
  case none.none => cases hv : p.ver <;> simp_all
  case none.some h =>
    obtain ⟨hs, hd, _⟩ := d.ipv6 h hh'
    cases useSrc <;> simp [Wd.Input.endpointAddr, hh, hh', PfPkt.addr, hs, hd]
  case some.none h | some.some h _ =>
    obtain ⟨hs, hd, _⟩ := d.ip h hh
    cases useSrc <;> simp [Wd.Input.endpointAddr, hh, PfPkt.addr, hs, hd]

theorem endpointPort (d : Describes p x) {useSrc : Bool}
    (hp : p.proto = Wd.ipprotoTcp ∨ p.proto = Wd.ipprotoUdp) :
    x.endpointPort useSrc = (p.port useSrc).setWidth 32 := by
  obtain ⟨tcp, udp, _, _⟩ := d.ports
  have ht := d.headers .tcp
  have hu := d.headers .udp
  simp only [Wd.Input.hasHeader, PfPkt.Has] at ht hu
  rcases hp with hp | hp
  case inl =>
    obtain ⟨h, hh⟩ := Option.isSome_iff_exists.mp <| ht.mpr hp
    obtain ⟨hs, hd⟩ := tcp h hh
    cases useSrc <;> simp [Wd.Input.endpointPort, hh, PfPkt.port, hs, hd]
  case inr =>
    obtain ⟨h, hh⟩ := Option.isSome_iff_exists.mp <| hu.mpr hp
    have hn : x.tcpHeader = none := by
      rw [hp] at ht
      simpa [Wd.ipprotoTcp, Wd.ipprotoUdp] using ht
    obtain ⟨hs, hd⟩ := udp h hh
    cases useSrc <;> simp [Wd.Input.endpointPort, hn, hh, PfPkt.port, hs, hd]

end Describes

def addrField (isLocal : Bool) : Field :=
  if isLocal then .localAddr else .remoteAddr

def portField (isLocal : Bool) : Field :=
  if isLocal then .localPort else .remotePort

-- Local is the source of outbound and the destination of inbound packets, remote the other way
-- round.
def PfPkt.useSrc (p : PfPkt) (isLocal : Bool) : Bool :=
  p.direction = if isLocal then .outbound else .inbound

namespace Describes

theorem outbound_eq (d : Describes p x) : x.outbound = p.useSrc true := by
  simp [d.outbound, PfPkt.useSrc]

theorem not_outbound_eq (d : Describes p x) : (!x.outbound) = p.useSrc false := by
  rw [d.outbound, PfPkt.useSrc]
  cases p.direction <;> rfl

theorem layer_network (d : Describes p x) {isLocal : Bool}
    (hf : insn.field = addrField isLocal ∨ insn.field = portField isLocal)
    (hv : Wd.validateField x.layer insn.field) : x.layer = .network := by
  rcases d.layer with hl | hl
  case inl => exact hl
  case inr => rcases hf with hf | hf <;> cases isLocal <;>
    simp [hl, hf, addrField, portField, Wd.validateField] at hv

-- The local and remote address: always there, on the layer that has these fields.
theorem answer_endpointAddr (d : Describes p x) {isLocal : Bool}
    (hf : insn.field = addrField isLocal)
    (hv : Wd.validateField x.layer insn.field) (ht : insn.test ≠ .other) :
    Wd.answer x insn =
      some (decide (insn.test.SatSigned insn.neg (p.addr (p.useSrc isLocal)).value insn.arg.value)) := by
  have hl := d.layer_network (.inl hf) hv
  refine Wd.answer_wide hv ?_ ht
  cases isLocal <;>
    simp [hf, addrField, Wd.readField, Wd.Input.layered, hl, d.endpointAddr, d.not_outbound_eq, ← d.outbound_eq]

theorem answer_endpointPort (d : Describes p x) {isLocal : Bool}
    (hf : insn.field = portField isLocal)
    (hv : Wd.validateField x.layer insn.field) (ht : insn.test ≠ .other)
    (hp : p.proto = Wd.ipprotoTcp ∨ p.proto = Wd.ipprotoUdp) :
    Wd.answer x insn =
      some (decide (insn.test.SatSigned insn.neg (p.port (p.useSrc isLocal)).toNat (insn.arg.word 0).toNat)) := by
  have hl := d.layer_network (.inr hf) hv
  have hr : Wd.readField x insn.field insn.arg =
      .narrow ((p.port (p.useSrc isLocal)).setWidth 32) := by
    cases isLocal <;>
      simp [hf, portField, Wd.readField, Wd.Input.layered, hl, d.endpointPort hp, d.not_outbound_eq,
        ← d.outbound_eq]
  rw [Wd.answer_narrow hv hr ht, BitVec.toNat_setWidth_of_le (by decide)]

end Describes

end Prefilter
