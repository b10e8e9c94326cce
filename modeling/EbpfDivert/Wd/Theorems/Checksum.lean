import EbpfDivert.Wd.Checksum
import Mathlib.Tactic.SplitIfs

namespace Wd

variable {packet behind b : Bytes} {l : Located} {f : ChecksumField} {flags : BitVec 64} {i : Nat}

namespace Chain

variable {s : Chain} {n fuel : Nat}

-- How many bytes the next step of the walk passes over.
def stride (s : Chain) : Option Nat :=
  if s.fragOff = 0 ∧ 2 ≤ s.data.length then s.extHeaderLen.filter (· ≤ s.data.length) else none

theorem walk_succ : walk (fuel + 1) s = match s.stride with
    | none   => s
    | some n => walk fuel (s.skip n) := by
  rw [walk, stride]
  split
  case isFalse => rfl
  case isTrue =>
    cases s.extHeaderLen
    case none => rfl
    case some n =>
      by_cases hn : n ≤ s.data.length
      case pos => simp [Option.filter, hn, Nat.not_lt.mpr hn]
      case neg => simp [Option.filter, hn, Nat.not_le.mp hn]

theorem le_of_stride (h : s.stride = some n) : 8 ≤ n ∧ n ≤ s.data.length := by
  rw [stride] at h
  split at h
  case isFalse => cases h
  case isTrue =>
    obtain ⟨he, hl⟩ := Option.filter_eq_some_iff.mp h
    refine ⟨?_, by simpa using hl⟩
    simp only [extHeaderLen] at he
    split_ifs at he
    all_goals
      cases he
      omega

theorem data_skip : (s.skip n).data = s.data.drop n := by
  rw [skip]
  split <;> rfl

-- The walk only moves forward.
theorem walk_data (fuel : Nat) (s : Chain) :
    ∃ k ≤ s.data.length, (walk fuel s).data = s.data.drop k := by
  induction fuel generalizing s
  case zero => exact ⟨0, Nat.zero_le _, rfl⟩
  case succ fuel ih =>
    rw [walk_succ]
    cases hn : s.stride
    case none => exact ⟨0, Nat.zero_le _, rfl⟩
    case some n =>
      have hle := (le_of_stride hn).right
      obtain ⟨k, hk, he⟩ := ih (s.skip n)
      rw [data_skip, List.length_drop] at hk
      rw [data_skip, List.drop_drop] at he
      exact ⟨n + k, by omega, he⟩

-- Only fragments have an offset or more to come.
def Coherent (s : Chain) : Prop :=
  s.fragment = false → s.mf = false ∧ s.fragOff = 0

theorem Coherent.walk (h : s.Coherent) (fuel : Nat) : (walk fuel s).Coherent := by
  induction fuel generalizing s
  case zero => exact h
  case succ fuel ih =>
    rw [walk_succ]
    cases s.stride
    case none => exact h
    case some n =>
      refine ih ?_
      rw [skip]
      split
      case isTrue  => exact fun hf => by simp at hf
      case isFalse => exact h

end Chain

-- Where the IPv4 header ends, and where the walk along the headers of IPv6 starts.
def chain4 (packet : Bytes) : Chain :=
  let ip := IpHdr.decode packet
  let fragOff := ip.fragOff.setWidth 16
  { protocol := ip.protocol, data := (packet.take ip.length.toNat).drop (ip.hdrLength.toNat * 4)
    fragOff := fragOff, mf := ip.mf, fragment := ip.mf || fragOff != 0 }

def total6 (packet : Bytes) : Nat :=
  (Ipv6Hdr.decode packet).length.toNat + Ipv6Hdr.size

def chain6 (packet : Bytes) : Chain where
  protocol := (Ipv6Hdr.decode packet).nextHdr
  data     := (packet.take (total6 packet)).drop Ipv6Hdr.size
  fragOff  := 0
  mf       := false
  fragment := false

-- The ways to find the transport header.
inductive Found (packet : Bytes) : Located → Prop
  | v4 (hl : IpHdr.size ≤ packet.length) (hv : packet.byte 0 >>> 4 = 4)
    (h₅ : 5 ≤ (IpHdr.decode packet).hdrLength.toNat)
    (ht : (IpHdr.decode packet).hdrLength.toNat * 4 ≤ (IpHdr.decode packet).length.toNat)
    (hp : (IpHdr.decode packet).hdrLength.toNat * 4 ≤ packet.length) :
    Found packet ⟨(IpHdr.decode packet).length.toNat, false, chain4 packet⟩
  | v6 (hl : Ipv6Hdr.size ≤ packet.length) (hv : packet.byte 0 >>> 4 = 6) :
    Found packet ⟨total6 packet, true, (chain6 packet).walk packet.length⟩

theorem locate_eq_some : locate packet = some l ↔ Found packet l := by
  constructor
  case mp =>
    intro h
    simp only [locate] at h
    split_ifs at h with hlen h₄ hh h₆ hlen'
    case neg =>
      cases h
      rw [not_or, not_or, Nat.not_lt, Nat.not_lt, Nat.not_lt] at hh
      exact .v4 (Nat.not_lt.mp hlen) h₄ hh.left hh.right.left hh.right.right
    case neg =>
      cases h
      exact .v6 (Nat.not_lt.mp hlen') h₆
  case mpr =>
    intro h
    cases h
    case v4 hl hv h₅ ht hp =>
      simp only [locate]
      rw [if_neg (by omega), if_pos hv, if_neg (by omega)]
      rfl
    case v6 hl hv =>
      have : ¬packet.length < IpHdr.size := by simp only [Ipv6Hdr.size, IpHdr.size] at *; omega
      simp only [locate]
      rw [if_neg this, if_neg (by rw [hv]; decide), if_pos hv, if_neg (by omega)]
      rfl

-- The IP headers take at least twenty bytes, and behind them are the other bytes of the IP packet.
structure Located.Ok (l : Located) (packet : Bytes) : Prop where
  min_le : 20 ≤ l.off packet
  le_min : l.off packet ≤ min l.totalLen packet.length
  data   : l.chain.data = (packet.take l.totalLen).drop (l.off packet)

theorem Located.off_of_drop {k : Nat} (hl : k ≤ min l.totalLen packet.length)
    (hd : l.chain.data = (packet.take l.totalLen).drop k) : l.off packet = k := by
  rw [off, hd, List.length_drop, List.length_take]
  omega

theorem Located.ok_of_drop {k : Nat} (hk : 20 ≤ k) (hl : k ≤ min l.totalLen packet.length)
    (hd : l.chain.data = (packet.take l.totalLen).drop k) : l.Ok packet := by
  have ho := off_of_drop hl hd
  exact ⟨by omega, by omega, by rw [ho, hd]⟩

theorem locate_ok (h : locate packet = some l) : l.Ok packet := by
  cases locate_eq_some.mp h
  case v4 hl hv h₅ ht hp => exact Located.ok_of_drop (by omega) (Nat.le_min.mpr ⟨ht, hp⟩) rfl
  case v6 hl hv =>
    obtain ⟨k, hk, hd⟩ := Chain.walk_data packet.length (chain6 packet)
    rw [chain6, List.length_drop, List.length_take] at hk
    rw [chain6, List.drop_drop] at hd
    have ht : total6 packet = (Ipv6Hdr.decode packet).length.toNat + 40 := rfl
    refine Located.ok_of_drop ?_ ?_ hd
    · simp only [Ipv6Hdr.size]; omega
    · simp only [Ipv6Hdr.size] at hk hl ⊢; omega

theorem locate_coherent (h : locate packet = some l) : l.chain.Coherent := by
  cases locate_eq_some.mp h
  case v4 =>
    intro hf
    simpa [chain4, Bool.or_eq_false_iff] using hf
  case v6 => exact Chain.Coherent.walk (fun _ => ⟨rfl, rfl⟩) _

-- The transport headers that have a checksum, and where it is in them.
inductive Kind
  | icmp
  | icmpv6
  | tcp
  | udp
deriving DecidableEq

def Kind.flag : Kind → BitVec 64
  | .icmp   => noIcmpChecksum
  | .icmpv6 => noIcmpv6Checksum
  | .tcp    => noTcpChecksum
  | .udp    => noUdpChecksum

def Kind.field : Kind → Nat
  | .icmp   => 2
  | .icmpv6 => 2
  | .tcp    => 16
  | .udp    => 6

-- The length that a TCP header claims to have.
def tcpLen (data : Bytes) : Nat := (TcpHdr.decode data).hdrLength.toNat * 4

-- What the transport header turns out to be.
inductive Parsed (data : Bytes) : Transport → Option Kind → Prop
  | none : Parsed data {} none
  | icmp (hl : IcmpHdr.size ≤ data.length) :
    Parsed data { icmpHeader := some (.decode data), headerLen := IcmpHdr.size } (some .icmp)
  | icmpv6 (hl : IcmpHdr.size ≤ data.length) :
    Parsed data { icmpv6Header := some (.decode data), headerLen := IcmpHdr.size } (some .icmpv6)
  | tcp (hl : TcpHdr.size ≤ data.length) :
    Parsed data { tcpHeader := some (.decode data), headerLen := min (tcpLen data) data.length }
      (some .tcp)
  | udp (hl : UdpHdr.size ≤ data.length) :
    Parsed data { udpHeader := some (.decode data), headerLen := UdpHdr.size } (some .udp)

def kindOf (ipv6 : Bool) (protocol : BitVec 8) (data : Bytes) : Option Kind :=
  if protocol = ipprotoTcp then
    if data.length < TcpHdr.size ∨ (TcpHdr.decode data).hdrLength.toNat < 5 then none else some .tcp
  else if protocol = ipprotoUdp then
    if data.length < UdpHdr.size then none else some .udp
  else if protocol = ipprotoIcmp then
    if ipv6 ∨ data.length < IcmpHdr.size then none else some .icmp
  else if protocol = ipprotoIcmpv6 then
    if ¬ipv6 ∨ data.length < IcmpHdr.size then none else some .icmpv6
  else none

theorem parseTransport_parsed {ipv6 : Bool} {protocol : BitVec 8} {data : Bytes} :
    Parsed data (parseTransport ipv6 protocol data) (kindOf ipv6 protocol data) := by
  simp only [parseTransport, kindOf]
  split_ifs with h₁ h₂ h₃ h₄ h₅ h₆ h₇ h₈
  case neg => exact .tcp (by omega)
  case neg => exact .udp (by omega)
  case neg => exact .icmp (by omega)
  case neg => exact .icmpv6 (by omega)
  all_goals exact .none

theorem Parsed.field_le {data : Bytes} {t : Transport} {k : Kind} (h : Parsed data t (some k)) :
    k.field + 2 ≤ data.length := by
  cases h <;> simp_all [IcmpHdr.size, TcpHdr.size, UdpHdr.size, Kind.field] <;> omega

def Located.kind (l : Located) : Option Kind :=
  if l.chain.fragOff = 0 then kindOf l.ipv6 l.chain.protocol l.chain.data else none

def Located.transport (l : Located) : Transport :=
  if l.chain.fragOff = 0 then parseTransport l.ipv6 l.chain.protocol l.chain.data else {}

theorem Located.parsed : Parsed l.chain.data l.transport l.kind := by
  rw [transport, kind]
  split
  case isTrue  => exact parseTransport_parsed
  case isFalse => exact .none

-- The headers of the transport layer that the parser reports.
structure Located.Reports (l : Located) (info : PacketInfo) : Prop where
  icmp    : info.icmpHeader = l.transport.icmpHeader
  icmpv6  : info.icmpv6Header = l.transport.icmpv6Header
  tcp     : info.tcpHeader = l.transport.tcpHeader
  udp     : info.udpHeader = l.transport.udpHeader

theorem Located.reports : l.Reports (l.info packet) := by
  have hv : (if l.ipv6 then some (Ipv6Hdr.decode packet) else none).isSome = l.ipv6 := by
    cases l.ipv6 <;> rfl
  have ht : (if l.chain.fragOff = 0 then parseTransport (if l.ipv6 then some (Ipv6Hdr.decode packet)
      else none).isSome l.chain.protocol l.chain.data else {}) = l.transport := by
    rw [hv, transport]
  constructor <;> simp only [info, packetInfo, ht]

theorem tcpHeader_isSome : (l.info packet).tcpHeader.isSome ↔ l.kind = some .tcp := by
  have hp := l.parsed
  rw [l.reports.tcp]
  generalize l.transport = t at hp
  generalize l.kind = k at hp
  cases hp <;> simp

theorem udpHeader_isSome : (l.info packet).udpHeader.isSome ↔ l.kind = some .udp := by
  have hp := l.parsed
  rw [l.reports.udp]
  generalize l.transport = t at hp
  generalize l.kind = k at hp
  cases hp <;> simp

-- The checksum field of the transport header is the one of its kind, and it is in the packet.
inductive Located.Carries (l : Located) (packet : Bytes) :
    Option (BitVec 64 × ChecksumField) → Option Kind → Prop
  | none : Carries l packet none none
  | some {k : Kind} {f : ChecksumField} (hh : f.hdr = l.off packet) (hf : f.field = k.field)
    (hl : k.field + 2 ≤ l.chain.data.length) : Carries l packet (some (k.flag, f)) (some k)

theorem transportField_carries :
    l.Carries packet (transportField packet (l.info packet) (l.off packet)) l.kind := by
  have hp := l.parsed
  have ⟨h₁, h₂, h₃, h₄⟩ : l.Reports (l.info packet) := l.reports
  simp only [transportField, h₁, h₂, h₃, h₄]
  generalize l.transport = t at hp
  generalize l.kind = k at hp
  cases hp
  case none      => exact .none
  case icmp hl   => exact .some (k := .icmp) rfl rfl (Parsed.icmp hl).field_le
  case icmpv6 hl => exact .some (k := .icmpv6) rfl rfl (Parsed.icmpv6 hl).field_le
  case tcp hl    => exact .some (k := .tcp) rfl rfl (Parsed.tcp hl).field_le
  case udp hl    => exact .some (k := .udp) rfl rfl (Parsed.udp hl).field_le

namespace ChecksumField

-- The field holds what is computed for it.
def Right (f : ChecksumField) (packet behind : Bytes) : Prop :=
  packet.slice f.pos 2 = .enc 2 (f.compute packet behind).toNat

instance : Decidable (f.Right packet behind) :=
  inferInstanceAs (Decidable (_ = _))

theorem fill_eq_self (h : f.pos + 2 ≤ packet.length) :
    f.fill packet behind = packet ↔ f.Right packet behind := by
  rw [fill, Bytes.store_eq_self (by rwa [Bytes.length_enc]), Bytes.length_enc, Right]

-- What lies before the header does not matter.
theorem compute_congr (hl : b.length = packet.length) (hp : f.pos + 2 ≤ packet.length)
    (h : ∀ i, f.hdr ≤ i → b.byte i = packet.byte i) : f.compute b behind = f.compute packet behind := by
  have hs : Bytes.slice (b.store f.pos [0, 0] ++ behind) f.hdr f.len =
      Bytes.slice (packet.store f.pos [0, 0] ++ behind) f.hdr f.len := by
    refine Bytes.slice_ext (by simp [hl]) fun i hi _ => ?_
    by_cases hin : i < packet.length
    case pos =>
      rw [Bytes.byte_append_left (by rwa [Bytes.length_store, hl]),
        Bytes.byte_append_left (by rwa [Bytes.length_store]),
        Bytes.byte_store (by rw [hl]; exact hp), Bytes.byte_store hp, h i hi]
    case neg =>
      obtain ⟨k, rfl⟩ := Nat.exists_eq_add_of_le (Nat.not_lt.mp hin)
      have hb : (b.store f.pos [0, 0]).length = packet.length := by rw [Bytes.length_store, hl]
      have hq : (packet.store f.pos [0, 0]).length = packet.length := Bytes.length_store
      rw [← hb, Bytes.byte_append_right, hb, ← hq, Bytes.byte_append_right]
  rw [compute, compute, hs]

end ChecksumField

-- The checksum of the IPv4 header.
def ipChecksum (packet : Bytes) : ChecksumField :=
  ⟨0, 10, (IpHdr.decode packet).hdrLength.toNat * 4, [], false⟩

theorem ipField_info : ipField (l.info packet) = if l.ipv6 then none else some (ipChecksum packet) := by
  rw [ipField, Located.info, packetInfo]
  cases l.ipv6 <;> rfl

theorem fillIp_info : fillIp packet behind (l.info packet) flags =
    if l.ipv6 ∨ Flags.has flags noIpChecksum then packet else (ipChecksum packet).fill packet behind := by
  rw [fillIp, ipField_info]
  cases l.ipv6 <;> simp

theorem length_fillIp : (fillIp packet behind (l.info packet) flags).length = packet.length := by
  rw [fillIp_info]
  split
  case isTrue  => rfl
  case isFalse => rw [ChecksumField.fill, Bytes.length_store]

theorem byte_fillIp (hi : 12 ≤ i) :
    (fillIp packet behind (l.info packet) flags).byte i = packet.byte i := by
  rw [fillIp_info]
  split
  case isTrue  => rfl
  case isFalse => exact Bytes.byte_store_outside (.inr hi)

namespace Located

def IpRight (l : Located) (packet behind : Bytes) : Prop :=
  l.ipv6 = false → (ipChecksum packet).Right packet behind

def TransportRight (l : Located) (packet behind : Bytes) : Prop :=
  ∀ x ∈ transportField packet (l.info packet) (l.off packet), x.2.Right packet behind

-- The transport checksum of such a packet is left alone.
def cut (l : Located) (packet : Bytes) : Bool :=
  packet.length < l.totalLen || l.chain.mf || l.chain.fragOff != 0

-- Some flag keeps the transport checksum.
def Kept (l : Located) (flags : BitVec 64) : Prop :=
  ∃ k, l.kind = some k ∧ Flags.has flags k.flag

theorem Ok.pos_le {k : Kind} (h : l.Ok packet) (hl : k.field + 2 ≤ l.chain.data.length) :
    l.off packet + k.field + 2 ≤ packet.length := by
  have := h.le_min
  rw [h.data, List.length_drop, List.length_take] at hl
  omega

end Located

theorem fillIp_eq_self (hl : 20 ≤ packet.length) : fillIp packet behind (l.info packet) flags = packet ↔
    Flags.has flags noIpChecksum ∨ l.IpRight packet behind := by
  rw [fillIp_info, Located.IpRight]
  cases l.ipv6
  case true => simp
  case false =>
    cases Flags.has flags noIpChecksum
    case true  => simp
    case false =>
      simp only [Bool.false_eq_true, or_self, ↓reduceIte, false_or, true_implies]
      exact ChecksumField.fill_eq_self (by simp only [ipChecksum, ChecksumField.pos]; omega)

-- The two checksums do not get in each other's way.
theorem fill_fillIp (hh : 20 ≤ f.hdr) (hp : f.pos + 2 ≤ packet.length) :
    f.fill (fillIp packet behind (l.info packet) flags) behind =
      (fillIp packet behind (l.info packet) flags).store f.pos
        (.enc 2 (f.compute packet behind).toNat) := by
  rw [ChecksumField.fill, ChecksumField.compute_congr length_fillIp hp fun i hi => byte_fillIp (by omega)]

theorem fill_fillIp_eq_self (hh : 20 ≤ f.hdr) (hp : f.pos + 2 ≤ packet.length) :
    f.fill (fillIp packet behind (l.info packet) flags) behind = packet ↔
      fillIp packet behind (l.info packet) flags = packet ∧ f.Right packet behind := by
  have hpos : 12 ≤ f.pos := by rw [ChecksumField.pos]; omega
  have he {x : Nat} : f.pos + (Bytes.enc 2 x).length ≤ packet.length := by rwa [Bytes.length_enc]
  rw [fill_fillIp hh hp, ← ChecksumField.fill_eq_self hp, ChecksumField.fill, fillIp_info]
  split
  case isTrue  => rw [and_iff_right rfl]
  case isFalse => exact Bytes.store_store_eq_self hpos he

-- When calculating the checksums again changes nothing.
theorem calcChecksums_none (h : locate packet = none) :
    (calcChecksums packet behind flags).2 = packet := by
  rw [calcChecksums, h]

theorem calcChecksums_eq_self_iff (h : locate packet = some l) :
    (calcChecksums packet behind flags).2 = packet ↔
      (Flags.has flags noIpChecksum ∨ l.IpRight packet behind) ∧
      (l.Kept flags ∨ l.cut packet ∨ l.TransportRight packet behind) := by
  have ho := locate_ok h
  have hlen : 20 ≤ packet.length := by have := ho.min_le; have := ho.le_min; omega
  have hc : l.Carries packet _ _ := transportField_carries
  have hcut : ((l.info packet).truncated || (l.info packet).mf || (l.info packet).fragOff != 0) =
    l.cut packet := rfl
  rw [calcChecksums, h, ← fillIp_eq_self hlen]
  simp only [Located.TransportRight, Located.Kept, hcut]
  generalize transportField packet (l.info packet) (l.off packet) = x at hc
  generalize l.kind = kind at hc
  cases hc
  case none => simp
  case some k f hh hf hl =>
    have hp : f.pos + 2 ≤ packet.length := by rw [ChecksumField.pos, hh, hf]; exact ho.pos_le hl
    by_cases hk : Flags.has flags k.flag
    case pos => simp [hk]
    case neg =>
      by_cases hu : l.cut packet
      case pos => simp [hk, hu]
      case neg => simpa [hk, hu] using fill_fillIp_eq_self (hh ▸ ho.min_le) hp

-- Neither a fragment nor longer than what there is of it.
def Located.Whole (l : Located) (packet : Bytes) : Prop :=
  l.chain.fragment = false ∧ ¬packet.length < l.totalLen

theorem Located.Whole.cut (h : l.Whole packet) (hc : l.chain.Coherent) : l.cut packet = false := by
  have ⟨hm, hf⟩ := hc h.left
  simp [Located.cut, hm, hf, h.right]

-- At most the checksum of the transport header is stored besides that of the IPv4 header.
theorem calcChecksums_cases (h : locate packet = some l) :
    (calcChecksums packet behind flags).2 = fillIp packet behind (l.info packet) flags ∨
    ∃ k x, l.kind = some k ∧ l.off packet + k.field + 2 ≤ packet.length ∧
      (calcChecksums packet behind flags).2 =
        (fillIp packet behind (l.info packet) flags).store (l.off packet + k.field) (.enc 2 x) := by
  have hc : l.Carries packet _ _ := transportField_carries
  rw [calcChecksums, h]
  dsimp only
  generalize transportField packet (l.info packet) (l.off packet) = x at hc
  generalize l.kind = kind at hc
  cases hc
  case none => exact .inl rfl
  case some k f hh hf hl =>
    dsimp only
    split_ifs
    case pos => exact .inl rfl
    case pos => exact .inl rfl
    case neg => exact .inr ⟨k, _, rfl, (locate_ok h).pos_le hl, by rw [← hh, ← hf]; rfl⟩

theorem slice_calcChecksums_ip (h : locate packet = some l) (hv : l.ipv6 = false) :
    (calcChecksums packet behind 0).2.slice 10 2 =
      .enc 2 ((ipChecksum packet).compute packet behind).toNat := by
  have ho := locate_ok h
  have hi : (fillIp packet behind (l.info packet) 0).slice 10 2 =
      .enc 2 ((ipChecksum packet).compute packet behind).toNat := by
    have := ho.min_le
    have := ho.le_min
    rw [fillIp_info, if_neg (by simp [hv])]
    exact Bytes.slice_store Bytes.length_enc (show 10 + 2 ≤ packet.length by omega)
  have hc : (calcChecksums packet behind 0).2 = _ ∨ _ := calcChecksums_cases h
  obtain he | ⟨k, x, -, hp, he⟩ := hc
  case inl => rw [he, hi]
  case inr =>
    rw [he, ← hi]
    refine Bytes.slice_ext Bytes.length_store fun i _ hi => Bytes.byte_store_outside (.inl ?_)
    have := ho.min_le
    omega

theorem slice_calcChecksums (h : locate packet = some l) (hu : l.cut packet = false) {k : Kind}
    (hk : l.kind = some k) : (calcChecksums packet behind 0).2.slice (l.off packet + k.field) 2 =
      packet.slice (l.off packet + k.field) 2 ↔ l.TransportRight packet behind := by
  have ho := locate_ok h
  have hc : l.Carries packet _ _ := transportField_carries
  have hcut : ((l.info packet).truncated || (l.info packet).mf || (l.info packet).fragOff != 0) =
    l.cut packet := rfl
  have hz : Flags.has (0 : BitVec 64) k.flag = false := Flags.has_zero
  rw [calcChecksums, h]
  simp only [Located.TransportRight, hcut, hu]
  rw [hk] at hc
  generalize transportField packet (l.info packet) (l.off packet) = x at hc
  cases hc
  case some f hh hf hl =>
    have hp := ho.pos_le hl
    have hpos : f.pos = l.off packet + k.field := by rw [ChecksumField.pos, hh, hf]
    have hs : (f.fill (fillIp packet behind (l.info packet) 0) behind).slice
        (l.off packet + k.field) 2 = .enc 2 (f.compute packet behind).toNat := by
      rw [fill_fillIp (hh ▸ ho.min_le) (hpos ▸ hp), hpos]
      exact Bytes.slice_store Bytes.length_enc (by rw [length_fillIp]; exact hp)
    simp only [hz, Bool.false_eq_true, ↓reduceIte, hs, Option.mem_some_iff, forall_eq',
      ChecksumField.Right, hpos]
    exact eq_comm

-- The flags say that a checksum is right, except for packets that are not whole.
structure Verified (l : Located) (packet behind : Bytes) (ok : Bool × Bool × Bool) : Prop where
  ip  : ok.1 ↔ l.Whole packet ∧ l.ipv6 = false ∧ l.IpRight packet behind
  tcp : ok.2.1 ↔ l.Whole packet ∧ l.kind = some .tcp ∧ l.TransportRight packet behind
  udp : ok.2.2 ↔ l.Whole packet ∧ l.kind = some .udp ∧ l.TransportRight packet behind

theorem Located.not_whole : ((l.info packet).fragment || (l.info packet).truncated) = true ↔
    ¬l.Whole packet := by
  rw [Bool.or_eq_true, Whole, not_and_or, not_not, Bool.not_eq_false]
  exact or_congr Iff.rfl decide_eq_true_iff

theorem verifyChecksums_verified (h : locate packet = some l) :
    Verified l packet behind (verifyChecksums packet behind) := by
  simp only [verifyChecksums, h]
  by_cases hw : l.Whole packet
  case neg =>
    rw [if_pos (l.not_whole.mpr hw)]
    exact ⟨by simp [hw], by simp [hw], by simp [hw]⟩
  case pos =>
    rw [if_neg (fun h => l.not_whole.mp h hw)]
    have hu := hw.cut (locate_coherent h)
    constructor
    case ip =>
      have hv : (l.info packet).ipHeader.isSome ↔ l.ipv6 = false := by
        rw [Located.info, packetInfo]
        cases l.ipv6 <;> simp
      rw [Bool.and_eq_true, hv, decide_eq_true_iff, and_iff_right hw]
      refine and_congr_right fun hv => ?_
      rw [slice_calcChecksums_ip h hv, eq_comm]
      exact ⟨fun h _ => h, fun h => h hv⟩
    case tcp =>
      rw [Bool.and_eq_true, tcpHeader_isSome, decide_eq_true_iff, and_iff_right hw]
      exact and_congr_right fun hk => slice_calcChecksums h hu hk
    case udp =>
      rw [Bool.and_eq_true, udpHeader_isSome, decide_eq_true_iff, and_iff_right hw]
      exact and_congr_right fun hk => slice_calcChecksums h hu hk

-- The bytes that belong to a checksum.
def ChecksumAt (packet : Bytes) (i : Nat) : Prop :=
  ∃ l, locate packet = some l ∧ (l.ipv6 = false ∧ 10 ≤ i ∧ i < 12 ∨
    ∃ k, l.kind = some k ∧ l.off packet + k.field ≤ i ∧ i < l.off packet + k.field + 2)

-- All other bytes are the same.
structure Agree (packet packet' : Bytes) : Prop where
  length : packet'.length = packet.length
  byte   : ∀ i, ¬ChecksumAt packet i → packet'.byte i = packet.byte i

theorem calcChecksums_agree : Agree packet (calcChecksums packet behind flags).2 := by
  cases h : locate packet
  case none =>
    rw [calcChecksums_none h]
    exact ⟨rfl, fun _ _ => rfl⟩
  case some l =>
    have hi (i : Nat) (hi : ¬ChecksumAt packet i) :
        (fillIp packet behind (l.info packet) flags).byte i = packet.byte i := by
      rw [fillIp_info]
      split
      case isTrue => rfl
      case isFalse hv =>
        rw [not_or, Bool.not_eq_true] at hv
        exact Bytes.byte_store_of_not_in Bytes.length_enc fun hin => hi ⟨l, h, .inl ⟨hv.left, hin⟩⟩
    have hc : (calcChecksums packet behind flags).2 = _ ∨ _ := calcChecksums_cases h
    obtain he | ⟨k, x, hk, hp, he⟩ := hc
    case inl =>
      rw [he]
      exact ⟨length_fillIp, hi⟩
    case inr =>
      rw [he]
      refine ⟨by rw [Bytes.length_store, length_fillIp], fun i hn => ?_⟩
      rw [Bytes.byte_store_of_not_in Bytes.length_enc fun hin => hn ⟨l, h, .inr ⟨k, hk, hin⟩⟩]
      exact hi i hn

end Wd
