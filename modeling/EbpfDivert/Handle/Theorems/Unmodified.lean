import EbpfDivert.Handle.Theorems.Fate
import EbpfDivert.Wd.Theorems.Checksum

open Shared Kernel

-- What injecting a packet that the filter rejects does to its bytes.
namespace Handle

-- The checksums as the library verifies and calculates them. Both calls work on a copy of the
-- packet, with some other memory behind it.
def Env.computing (env : Env) (behindCopy behindPkt : Bytes) : Env :=
  { env with
    verifyChecksums := fun pkt =>
      let (ip, tcp, udp) := Wd.verifyChecksums pkt behindCopy
      ⟨ip, tcp, udp⟩
    calcChecksums   := fun pkt flags => (Wd.calcChecksums pkt behindPkt flags).2 }

variable {env : Env} {h : Handle} {pkt behindCopy behindPkt : Bytes} {addr : Address} {sent : Sent}
variable {kenv : Kernel.Env} {c : ConfigEnv} {t : Tables} {skb : Skb} {direction : Dir}
variable {r : PacketBuffer} {res : Except Errno Sent} {l : Wd.Located}

section Keep

theorem has_keepChecksums_ip : Flags.has (keepChecksums addr) Wd.noIpChecksum = addr.ipChecksum := by
  rw [keepChecksums]
  cases addr.ipChecksum <;> cases addr.tcpChecksum <;> cases addr.udpChecksum <;> decide

-- The checksum of a packet with ICMP is never kept.
theorem has_keepChecksums {k : Wd.Kind} : Flags.has (keepChecksums addr) k.flag =
    match k with
    | .icmp | .icmpv6 => false
    | .tcp            => addr.tcpChecksum
    | .udp            => addr.udpChecksum := by
  rw [keepChecksums]
  cases k <;> cases addr.ipChecksum <;> cases addr.tcpChecksum <;> cases addr.udpChecksum <;> decide

end Keep

-- The checksums that a captured packet has are the ones that it is sent with.
structure Settled (l : Wd.Located) (pkt behindCopy behindPkt : Bytes) : Prop where
  ip        : l.IpRight pkt behindPkt
  transport : l.cut pkt ∨ l.TransportRight pkt behindPkt ∨
    l.Whole pkt ∧ (l.kind = some .tcp ∨ l.kind = some .udp) ∧ l.TransportRight pkt behindCopy

-- The IPv4 header is all in the packet.
theorem ipRight_behind (hl : Wd.locate pkt = some l) :
    l.IpRight pkt behindCopy ↔ l.IpRight pkt behindPkt := by
  cases Wd.locate_eq_some.mp hl
  case v6 => exact ⟨fun _ => nofun, fun _ => nofun⟩
  case v4 hp =>
    have hs (behind : Bytes) : (Wd.ipChecksum pkt).compute pkt behind =
        (Wd.ipChecksum pkt).compute pkt [] := by
      have hl (behind : Bytes) : Bytes.slice (pkt.store 10 [0, 0] ++ behind) 0
          ((Wd.IpHdr.decode pkt).hdrLength.toNat * 4) = _ :=
        Bytes.slice_append_left (by rw [Bytes.length_store, Nat.zero_add]; exact hp)
      simp only [Wd.ChecksumField.compute, Wd.ChecksumField.pos, Wd.ipChecksum, Nat.zero_add, hl]
    simp only [Wd.Located.IpRight, Wd.ChecksumField.Right, hs]

theorem kept_iff (hl : Wd.locate pkt = some l)
    (ht : addr.tcpChecksum = (Wd.verifyChecksums pkt behindCopy).2.1)
    (hu : addr.udpChecksum = (Wd.verifyChecksums pkt behindCopy).2.2) :
    l.Kept (keepChecksums addr) ↔
      l.Whole pkt ∧ (l.kind = some .tcp ∨ l.kind = some .udp) ∧ l.TransportRight pkt behindCopy := by
  have hv : Wd.Verified l pkt behindCopy _ := Wd.verifyChecksums_verified hl
  constructor
  case mp =>
    intro ⟨k, hk, hf⟩
    rw [has_keepChecksums] at hf
    cases k
    case icmp   => cases hf
    case icmpv6 => cases hf
    case tcp =>
      have ⟨hw, _, hr⟩ := hv.tcp.mp (ht ▸ hf)
      exact ⟨hw, .inl hk, hr⟩
    case udp =>
      have ⟨hw, _, hr⟩ := hv.udp.mp (hu ▸ hf)
      exact ⟨hw, .inr hk, hr⟩
  case mpr =>
    intro ⟨hw, hk, hr⟩
    obtain hk | hk := hk
    case inl => exact ⟨.tcp, hk, has_keepChecksums.trans (ht.trans (hv.tcp.mpr ⟨hw, hk, hr⟩))⟩
    case inr => exact ⟨.udp, hk, has_keepChecksums.trans (hu.trans (hv.udp.mpr ⟨hw, hk, hr⟩))⟩

-- Calculating only the checksums that were found to be wrong changes nothing iff there are none.
theorem calcChecksums_settled_iff (hl : Wd.locate pkt = some l)
    (hi : addr.ipChecksum = (Wd.verifyChecksums pkt behindCopy).1)
    (ht : addr.tcpChecksum = (Wd.verifyChecksums pkt behindCopy).2.1)
    (hu : addr.udpChecksum = (Wd.verifyChecksums pkt behindCopy).2.2) :
    (Wd.calcChecksums pkt behindPkt (keepChecksums addr)).2 = pkt ↔
      Settled l pkt behindCopy behindPkt := by
  have hv : Wd.Verified l pkt behindCopy _ := Wd.verifyChecksums_verified hl
  have hip : Flags.has (keepChecksums addr) Wd.noIpChecksum ∨ l.IpRight pkt behindPkt ↔
      l.IpRight pkt behindPkt := by
    refine or_iff_right_of_imp fun hf => ?_
    rw [has_keepChecksums_ip, hi] at hf
    exact (ipRight_behind hl).mp (hv.ip.mp hf).right.right
  rw [Wd.calcChecksums_eq_self_iff hl, hip, kept_iff hl ht hu]
  constructor
  case mp =>
    rintro ⟨h₁, h₂ | h₂ | h₂⟩
    case inl     => exact ⟨h₁, .inr <| .inr h₂⟩
    case inr.inl => exact ⟨h₁, .inl h₂⟩
    case inr.inr => exact ⟨h₁, .inr <| .inl h₂⟩
  case mpr =>
    rintro ⟨h₁, h₂ | h₂ | h₂⟩
    case inl     => exact ⟨h₁, .inr <| .inl h₂⟩
    case inr.inl => exact ⟨h₁, .inr <| .inr h₂⟩
    case inr.inr => exact ⟨h₁, .inl h₂⟩

-- A rejected packet is sent as it was captured iff its checksums are right or left alone.
theorem rejected_unmodified_iff
    (hr : (processPacket kenv (h.config c) t skb direction).record = some r)
    (hi : (ringCallback (env.computing behindCopy behindPkt) h r).1 = .injected res)
    (hs : env.sockOk) (hse : env.sendOk) :
    ∃ sent, res = .ok sent ∧ (sent.pkt = r.data.drop r.header.l2Len ↔
      ∀ l, Wd.locate (r.data.drop r.header.l2Len) = some l →
        Settled l (r.data.drop r.header.l2Len) behindCopy behindPkt) := by
  have hc := record_captured hr
  obtain ⟨e, he⟩ : ∃ e, e = env.computing behindCopy behindPkt := ⟨_, rfl⟩
  rw [← he] at hi
  have hae : e.allocOk := allocOk_of_taken (h := h) (r := r) (by simp [hi])
  rw [ringCallback_eq hc.whole hae] at hi
  have hj : (inject e h (r.data.drop r.header.l2Len) (recordAddress e h r.header r.data) true).1 =
      res := by
    split_ifs at hi
    exact Received.injected.inj hi
  obtain ⟨sent, hok⟩ : ∃ sent, (inject e h (r.data.drop r.header.l2Len)
    (recordAddress e h r.header r.data) true).1 = .ok sent :=
      inject_ok hc.injectable hae (he ▸ hs) (he ▸ hse)
  refine ⟨sent, hj.symm.trans hok, ?_⟩
  rw [inject_eq hc.injectable hae] at hok
  rw [route_pkt hok, if_pos rfl, he]
  cases hl : Wd.locate (r.data.drop r.header.l2Len)
  case none => exact iff_of_true (Wd.calcChecksums_none hl) nofun
  case some l =>
    simp only [Option.some.injEq, forall_eq']
    exact calcChecksums_settled_iff hl rfl rfl rfl

-- A datagram from 10.0.0.1 to 192.0.2.1, port 53.
def datagram (checksum : Bytes) : Bytes :=
  .replicate 12 2 ++ [0x08, 0x00] ++ [0x45, 0, 0, 28, 0, 0, 0x40, 0, 64, 17, 0x6E, 0xCF] ++
    [10, 0, 0, 1, 192, 0, 2, 1] ++ [0xC0, 0, 0, 53, 0, 8] ++ checksum

def datagramSkb (checksum : Bytes) : Skb :=
  { sentSkb (datagram checksum) with ifindex := 2 }

def datagramRecord (checksum : Bytes) : PacketBuffer where
  header := ⟨42, 2, .outbound, 14, 42, 0, 0, 0, 0, 0⟩
  data   := datagram checksum
  room   := 2048

theorem rejected_unmodified_iff_summed : ∃ sent,
    (ringCallback (calmEnv.computing [] []) synHandle (datagramRecord [0x73, 0xA6])).1 =
      .injected (.ok sent) ∧ sent.pkt = (datagram [0x73, 0xA6]).drop 14 := by
  have hr : (processPacket okEnv (synHandle.config calmConfig) (catchAll 0)
    (datagramSkb [0x73, 0xA6]) .outbound).record = some (datagramRecord [0x73, 0xA6]) := rfl
  obtain ⟨res, hi⟩ : ∃ res, (ringCallback (calmEnv.computing [] []) synHandle
    (datagramRecord [0x73, 0xA6])).1 = .injected res := ⟨_, rfl⟩
  obtain ⟨sent, rfl, hs⟩ := rejected_unmodified_iff hr hi rfl rfl
  refine ⟨sent, hi, hs.mpr fun l hl => ?_⟩
  cases hl
  exact ⟨fun _ => by decide, .inr (.inl fun x hx => by cases hx; decide)⟩

-- Not every datagram carries a checksum.
theorem rejected_modified : ∃ sent,
    (processPacket okEnv (synHandle.config calmConfig) (catchAll 0)
      (datagramSkb [0, 0]) .outbound).record = some (datagramRecord [0, 0]) ∧
    (ringCallback (calmEnv.computing [] []) synHandle (datagramRecord [0, 0])).1 =
      .injected (.ok sent) ∧
    sent.pkt ≠ (datagram [0, 0]).drop 14 :=
  ⟨_, rfl, rfl, by decide⟩

end Handle
