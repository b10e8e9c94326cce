import EbpfDivert.Handle.Send
import EbpfDivert.Wd.Theorems.Agree

open Shared

-- Packets that the kernel is asked to cut into segments.
namespace Handle

section Prepare

variable {packet packet' : Bytes} {l : Wd.Located} {l2Len : Nat} {mtu gsoSize : BitVec 16}
variable {vh : VirtioNetHdr} {f : Frame}

-- The parser reports a transport header if it has found one of a known kind.
theorem parsePacket_transport {info : Wd.WdPacketInfo} {off : Nat}
    (hi : Wd.parsePacket packet = some info) (ho : info.transportOff = some off) :
    ∃ l k, Wd.locate packet = some l ∧ l.kind = some k ∧ off = l.off packet ∧
      info.protocol = l.chain.protocol := by
  rw [Wd.parsePacket] at hi
  cases hl : Wd.locate packet
  case none => simp [hl] at hi
  case some l =>
    simp only [hl, Option.bind_eq_bind, Option.bind_some, Option.some.injEq] at hi
    rw [← hi] at ho ⊢
    dsimp only at ho
    split at ho
    case isFalse => cases ho
    case isTrue hs =>
      have hp := l.parsed
      obtain ⟨h₁, h₂, h₃, h₄⟩ : l.Reports (l.info packet) := l.reports
      rw [h₁, h₂, h₃, h₄] at hs
      cases hk : l.kind
      case some k => exact ⟨l, k, rfl, hk, (Option.some.inj ho).symm, rfl⟩
      case none =>
        rw [hk] at hp
        generalize l.transport = t at hp hs
        cases hp
        cases hs

theorem kind_of_protocol {k : Wd.Kind} (hk : l.kind = some k) :
    (l.chain.protocol = Wd.ipprotoTcp → k = .tcp) ∧ (l.chain.protocol = Wd.ipprotoUdp → k = .udp) := by
  rw [Wd.Located.kind] at hk
  split at hk
  case isFalse => cases hk
  case isTrue =>
    constructor
    all_goals
      intro hp
      rw [hp] at hk
      simp only [Wd.kindOf] at hk
      split_ifs at hk <;> cases hk <;> first | rfl | contradiction

-- What is known of a packet that can be segmented.
structure Segmented (packet packet' : Bytes) (mtu gsoSize : BitVec 16) (vh : VirtioNetHdr)
    (info : Wd.WdPacketInfo) (l : Wd.Located) (k : Wd.Kind) : Prop where
  parsed : Wd.parsePacket packet = some info
  loc    : Wd.locate packet = some l
  kind   : l.kind = some k
  off    : info.transportOff = some (l.off packet)
  size   : vh.gsoSize =
    if gsoSize = 0 then mtu - .ofNat 16 (info.payloadOff.getD (l.off packet)) else gsoSize
  bytes  : packet' = packet.store (l.off packet + k.field)
    (Bytes.enc 2 (pseudoSum packet info (packet.length - l.off packet)).toNat).reverse

theorem prepareGso_segmented (h : prepareGso packet l2Len mtu gsoSize = some (vh, packet')) :
    ∃ info l k, Segmented packet packet' mtu gsoSize vh info l k := by
  rw [prepareGso] at h
  cases hi : Wd.parsePacket packet
  case none => simp [hi] at h
  case some info =>
    cases ho : info.transportOff
    case none => simp [hi, ho] at h
    case some off =>
      obtain ⟨l, k, hl, hk, rfl, hp⟩ := parsePacket_transport hi ho
      simp only [hi, ho, Option.bind_eq_bind, Option.bind_some, Nat.add_sub_cancel_left] at h
      split at h
      case isTrue => cases h
      case isFalse =>
        split at h
        case isTrue => cases h
        case isFalse hu =>
          have hfield : (if info.protocol = Wd.ipprotoTcp then 16 else 6) = k.field := by
            obtain ⟨htcp, hudp⟩ := kind_of_protocol hk
            rw [hp] at hu ⊢
            split
            case isTrue ht => rw [htcp ht]; rfl
            case isFalse ht => rw [hudp (by simpa [ht] using hu)]; rfl
          obtain ⟨rfl, rfl⟩ := Prod.mk.inj (Option.some.inj h)
          exact ⟨info, l, k, hi, hl, hk, ho, rfl, by rw [hfield]⟩

-- Preparing a packet for segmentation only touches its checksum.
theorem prepareGso_agree (h : prepareGso packet l2Len mtu gsoSize = some (vh, packet')) :
    Wd.Agree packet packet' := by
  obtain ⟨info, l, k, hs⟩ := prepareGso_segmented h
  have hv {x : Nat} : (Bytes.enc 2 x).reverse.length = 2 := by
    rw [List.length_reverse, Bytes.length_enc]
  rw [hs.bytes]
  exact ⟨Bytes.length_store, fun i hn =>
    Bytes.byte_store_of_not_in hv fun hin => hn ⟨l, hs.loc, .inr ⟨k, hs.kind, hin⟩⟩⟩

-- The frame on the wire is the link layer header with the packet, up to its checksums.
theorem Frame.wire_agree (f : Frame) (mtu : BitVec 32) :
    ∃ packet, (f.wire mtu).2 = f.l2 ++ packet ∧ Wd.Agree f.pkt packet := by
  rw [wire]
  split
  case h_2 => exact ⟨f.pkt, rfl, .refl⟩
  case h_1 vh packet h =>
    split at h
    case isTrue  => exact ⟨packet, rfl, prepareGso_agree h⟩
    case isFalse => cases h

end Prepare

section Size

variable {packet packet' : Bytes} {info : Wd.WdPacketInfo} {l : Wd.Located} {k : Wd.Kind}
variable {mtu gsoSize : BitVec 16} {vh : VirtioNetHdr}

-- The bytes of the IP headers and the transport header.
def headerBytes (packet : Bytes) : Nat :=
  (Wd.parsePacketEx packet).elim 0 (·.headerLength)

-- The packets that `send_af_packet` hands over for segmentation.
structure Frame.Oversized (f : Frame) (mtu : BitVec 32) : Prop where
  large  : 576 < f.pkt.length
  above  : mtu.toNat < f.pkt.length
  le_max : f.pkt.length ≤ mtuMax
  mtu_ge : 68 ≤ mtu.toNat

-- The size of a segment is the difference of the MTU and the headers, in 16 bits. Without a payload
-- the transport header is not counted.
def LeavesRoom (packet : Bytes) (mtu : Nat) : Prop :=
  ∃ info, Wd.parsePacket packet = some info ∧
    match info.payloadOff with
    | some hdr => hdr < mtu ∧ mtu ≠ hdr + 2 ^ 16
    | none     => ∃ off, info.transportOff = some off ∧ off + 2 ^ 16 < mtu

theorem headerLen_parseTransport {ipv6 : Bool} {protocol : BitVec 8} {data : Bytes}
    (hk : Wd.kindOf ipv6 protocol data = some k) :
    let n := (Wd.parseTransport ipv6 protocol data).headerLen
    0 < n ∧ n ≤ 60 ∧ n ≤ data.length := by
  have ht := (Wd.TcpHdr.decode data).hdrLength.isLt
  simp only [Wd.kindOf] at hk
  simp only [Wd.parseTransport]
  split_ifs at hk ⊢
  all_goals first
    | cases hk; done
    | simp only [Wd.TcpHdr.size, Wd.UdpHdr.size, Wd.IcmpHdr.size] at *; omega

theorem headerLen_transport (hk : l.kind = some k) :
    0 < l.transport.headerLen ∧ l.transport.headerLen ≤ 60 ∧
      l.transport.headerLen ≤ l.chain.data.length := by
  rw [Wd.Located.kind] at hk
  split at hk
  case isFalse => cases hk
  case isTrue h₀ =>
    rw [Wd.Located.transport, if_pos h₀]
    exact headerLen_parseTransport hk

theorem payloadLength_info :
    (l.info packet).payloadLength = l.chain.data.length - l.transport.headerLen := by
  have hv : (if l.ipv6 then some (Wd.Ipv6Hdr.decode packet) else none).isSome = l.ipv6 := by
    cases l.ipv6 <;> rfl
  simp only [Wd.Located.info, Wd.packetInfo, hv, Wd.Located.transport]

theorem headerLength_info (ho : l.Ok packet) (hk : l.kind = some k) :
    (l.info packet).headerLength = l.off packet + l.transport.headerLen := by
  have hi : (l.info packet).headerLength =
      min l.totalLen packet.length - (l.info packet).payloadLength := rfl
  have hd : l.off packet = min l.totalLen packet.length - l.chain.data.length := rfl
  have hn := ho.min_le
  have hh := headerLen_transport hk
  rw [hi, payloadLength_info]
  omega

-- The numbers that the size of the segments depends on.
theorem Segmented.sizes (h : Segmented packet packet' mtu gsoSize vh info l k) :
    headerBytes packet = l.off packet + l.transport.headerLen ∧
    (info.payloadOff = some (headerBytes packet) ∨ info.payloadOff = none) := by
  have hb : headerBytes packet = (l.info packet).headerLength := by
    rw [headerBytes, Wd.parsePacketEx_eq, h.loc]
    rfl
  have hi := h.parsed
  simp only [Wd.parsePacket, h.loc, Option.bind_eq_bind, Option.bind_some, Option.some.injEq] at hi
  refine ⟨hb.trans (headerLength_info (Wd.locate_ok h.loc) h.kind), ?_⟩
  rw [← hi, hb]
  dsimp only
  split
  case isTrue  => exact .inr rfl
  case isFalse => exact .inl rfl

-- Exactly in these cases the segments fit the interface.
theorem gso_fits_iff {f : Frame} {mtu : BitVec 32} {vh : VirtioNetHdr} {packet : Bytes}
    (hf : f.Oversized mtu) (hg : f.gsoSize = 0)
    (h : prepareGso f.pkt f.l2.length (mtu.setWidth 16) f.gsoSize = some (vh, packet)) :
    1 ≤ vh.gsoSize.toNat ∧ headerBytes f.pkt + vh.gsoSize.toNat ≤ mtu.toNat ↔
    LeavesRoom f.pkt mtu.toNat := by
  obtain ⟨info, l, k, hs⟩ := prepareGso_segmented h
  obtain ⟨hb, hp⟩ := hs.sizes
  have hn := headerLen_transport hs.kind
  have hl := (Wd.locate_ok hs.loc).le_min
  have hm : mtu.toNat < 65575 := Nat.lt_of_lt_of_le hf.above hf.le_max
  have hr : LeavesRoom f.pkt mtu.toNat ↔
      match info.payloadOff with
      | some hdr => hdr < mtu.toNat ∧ mtu.toNat ≠ hdr + 2 ^ 16
      | none     => ∃ off, info.transportOff = some off ∧ off + 2 ^ 16 < mtu.toNat := by
    rw [LeavesRoom, hs.parsed]
    simp only [Option.some.injEq, exists_eq_left']
  have hv : vh.gsoSize.toNat =
      (2 ^ 16 - info.payloadOff.getD (l.off f.pkt) % 2 ^ 16 + mtu.toNat % 2 ^ 16) % 2 ^ 16 := by
    rw [hs.size, if_pos hg, BitVec.toNat_sub, BitVec.toNat_ofNat, BitVec.toNat_setWidth]
  rw [hr, hv]
  obtain hp | hp := hp
  all_goals rw [hp]
  case inl =>
    simp only [Option.getD_some]
    omega
  case inr =>
    simp only [Option.getD_none, hs.off, Option.some.injEq, exists_eq_left']
    omega

-- An IPv4 packet with a TCP header, 600 bytes long. The two lengths are in words of four bytes.
def tcpFrame (ihl doff : BitVec 4) : Frame where
  ifindex  := 2
  mark     := 0
  priority := 0
  l2       := .replicate 14 0
  pkt      :=
    let ip := [4#4 ++ ihl, 0, 0x02, 0x58, 0, 0, 0, 0, 64, 6] ++ .replicate (4 * ihl.toNat - 10) 0
    let tcp := .replicate 12 0 ++ [doff ++ 0#4] ++ .replicate (4 * doff.toNat - 13) 0
    ip ++ tcp ++ .replicate (600 - 4 * (ihl.toNat + doff.toNat)) 0
  gsoSize  := 0

theorem gso_fits_plain : ∃ vh packet,
    prepareGso (tcpFrame 5 5).pkt 14 576 0 = some (vh, packet) ∧
    1 ≤ vh.gsoSize.toNat ∧ headerBytes (tcpFrame 5 5).pkt + vh.gsoSize.toNat ≤ 576 := by
  have h : (prepareGso (tcpFrame 5 5).pkt 14 576 0).isSome := by decide +kernel
  obtain ⟨⟨vh, packet⟩, h⟩ := Option.isSome_iff_exists.mp h
  have hf : (tcpFrame 5 5).Oversized 576 := by constructor <;> decide +kernel
  have hi : (Wd.parsePacket (tcpFrame 5 5).pkt).map (·.payloadOff) = some (some 40) := by
    decide +kernel
  obtain ⟨info, hi, hp⟩ := Option.map_eq_some_iff.mp hi
  exact ⟨vh, packet, h, (gso_fits_iff hf rfl h).mpr ⟨info, hi, by simp [hp]⟩⟩

-- With 120 bytes of headers and an MTU of 100 the difference wraps around.
theorem gso_wraps : (tcpFrame 15 15).Oversized 100 ∧ headerBytes (tcpFrame 15 15).pkt = 120 ∧
    (prepareGso (tcpFrame 15 15).pkt 14 100 0).map (·.1.gsoSize) = some 65516 := by
  exact ⟨by constructor <;> decide +kernel, by decide +kernel, by decide +kernel⟩

end Size

end Handle
