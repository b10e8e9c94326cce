import EbpfDivert.Host.Theorems.Chain

open Shared Kernel

-- How an injected inbound packet gets to its interface.
namespace Host

variable {h h₀ : Handle} {sent : Handle.Sent} {skb skb' : Skb} {env : Env} {cfg : DivertConfig}
variable {t : Tables} {fx : Handle.Env} {bytes : Bytes} {addr : Handle.Address}
variable {fixChecksums : Bool} {ifindex x y : BitVec 32}

-- The hook of an interface runs with the mark that the sender puts on what it sends directly.
def Arrives (h : Handle) (skb : Skb) : Prop :=
  ∀ env cfg t, tcDivertIngress env cfg t skb =
    (.done (processPacket env cfg t { skb with mark := h.prevent } .inbound),
      { skb with mark := h.prevent })

-- Whichever program sees the packet first on `lo` redirects it to the interface, where it arrives.
def Delivered (h : Handle) (ifindex : BitVec 32) (sent : Handle.Sent) : Prop :=
  ∀ skb, Emits sent skb → skb.ifindex = h.loIfindex ∧
    ∀ env cfg t, ∃ skb', tcDivertIngress env cfg t skb = (.redirect ifindex, skb') ∧
      ∀ skb'' : Skb, skb''.mark = skb'.mark → Arrives h skb''

theorem Sender.socksOk (hs : Sender h₀ h) (hf : h₀.socks = []) : h.SocksOk :=
  hs.extends.socks (by simp [Handle.SocksOk, hf])

-- What is handed to the kernel for an inbound packet.
theorem inject_inbound (hs : h.SocksOk) (hl : ¬addr.Local h) (ho : ¬addr.Outgoing)
    (hi : 0 < addr.network.ifIdx.toInt)
    (hk : (Handle.inject fx h bytes addr fixChecksums).1 = .ok sent) :
    ∃ l2 pkt gsoSize, sent = .frame
      ⟨h.loIfindex, redirectMarkMask ||| (addr.network.ifIdx &&& 0xFFFF),
        redirectPrioMagic ||| (h.tcPrio &&& 0xFFFF), l2, pkt, gsoSize⟩ := by
  obtain ⟨_, he⟩ | ⟨pkt, he⟩ := Handle.inject_cases fx h bytes addr fixChecksums
  case inl => simp [he] at hk
  case inr =>
    rw [he] at hk
    have hr : Handle.Routed fx h pkt addr _ := Handle.route_routed
    generalize Handle.route fx h pkt addr = res at hr hk
    cases hr
    case raw hr =>
      rcases hr with hr | hr | hr
      case inl       => exact absurd hr hl
      case inr.inl   => omega
      case inr.inr   => exact absurd hr.left ho
    case out ho' _ _ => exact absurd ho' ho
    case lo l2 _ _ _ =>
      obtain ⟨_, rfl, hp⟩ := Handle.sendAfPacket_sent (fun _ => rfl) hs hk
      exact ⟨l2, pkt, _, by rw [hp (upperHalf_or upperHalf_redirect)]⟩

theorem ingress_redirect (hm : skb.mark = redirectMarkMask ||| (x &&& 0xFFFF))
    (hp : skb.priority = redirectPrioMagic ||| (y &&& 0xFFFF)) :
    tcDivertIngress env cfg t skb = (.redirect (x &&& 0xFFFF),
      { skb with mark := redirectedMark ||| (y &&& 0xFFFF), priority := 0 }) := by
  simp only [tcDivertIngress, hm, hp, upperHalf_or upperHalf_redirect, upperHalf_or upperHalf_magic,
    lowerHalf_or upperHalf_redirect, lowerHalf_or upperHalf_magic, ↓reduceIte]

theorem arrives_of_redirected (hm : skb.mark = redirectedMark ||| (h.tcPrio &&& 0xFFFF)) :
    Arrives h skb := by
  intro env cfg t
  have hu : upperHalf skb.mark = redirectedMark := hm ▸ upperHalf_or upperHalf_redirected
  rw [tcDivertIngress, hu, if_neg (by decide), if_pos rfl, hm, lowerHalf_or upperHalf_redirected]
  rfl

theorem delivered_iff {l2 pkt : Bytes} {gsoSize : BitVec 16} :
    Delivered h ifindex (.frame ⟨h.loIfindex, redirectMarkMask ||| (x &&& 0xFFFF),
      redirectPrioMagic ||| (h.tcPrio &&& 0xFFFF), l2, pkt, gsoSize⟩) ↔ x &&& 0xFFFF = ifindex := by
  constructor
  case mp =>
    intro hd
    let skb : Skb :=
      { bytes := [], headLen := 0, head_le := Nat.le_refl 0, ifindex := h.loIfindex
        ingressIfindex := 0, mark := redirectMarkMask ||| (x &&& 0xFFFF)
        priority := redirectPrioMagic ||| (h.tcPrio &&& 0xFFFF), gsoSize := 0, gsoSegs := 0 }
    have hs := (hd skb (.frame rfl rfl rfl rfl)).right okEnv openConfig (catchAll 0)
    obtain ⟨skb', hs, -⟩ := hs
    rw [ingress_redirect rfl rfl] at hs
    cases hs
    rfl
  case mpr =>
    rintro rfl skb (⟨hi, hm, hp, _⟩)
    refine ⟨hi, fun env cfg t => ⟨_, ingress_redirect hm hp, fun skb'' hm'' => ?_⟩⟩
    exact arrives_of_redirected hm''

theorem and_eq_self_iff : x &&& 0xFFFF = x ↔ x ≤ 0xFFFF := by
  constructor
  case mpr => exact and_of_le
  case mp =>
    intro h
    rw [← h]
    exact BitVec.le_def.mpr <| by rw [BitVec.toNat_and]; exact Nat.and_le_right

-- Only sixteen bits of the index fit into the mark.
theorem inbound_delivered_iff (hs : Sender h₀ h) (hf : h₀.socks = []) (hl : ¬addr.Local h)
    (ho : ¬addr.Outgoing) (hi : 0 < addr.network.ifIdx.toInt)
    (hk : (Handle.inject fx h bytes addr fixChecksums).1 = .ok sent) :
    Delivered h addr.network.ifIdx sent ↔ addr.network.ifIdx ≤ 0xFFFF := by
  obtain ⟨l2, pkt, gsoSize, rfl⟩ := inject_inbound (hs.socksOk hf) hl ho hi hk
  rw [delivered_iff, and_eq_self_iff]

-- An inbound packet for an interface.
def inboundTo (ifindex : BitVec 32) : Handle.Address :=
  { firstAddress with outbound := false, network := ⟨ifindex, 0⟩ }

def sentTo (ifindex : BitVec 32) : Except Handle.Errno Handle.Sent :=
  (Handle.inject Handle.calmEnv Handle.synHandle (Handle.synFrame.drop 14) (inboundTo ifindex) true).1

theorem inbound_delivered_iff_five : ∃ sent, sentTo 5 = .ok sent ∧
    Delivered Handle.synHandle 5 sent := by
  have hk : sentTo 5 = .ok _ := rfl
  exact ⟨_, hk, (inbound_delivered_iff .refl rfl (by decide) (by decide) (by decide) hk).mpr
    (by decide)⟩

-- What is sent to interface 65538 comes in on interface 2.
theorem inbound_astray : ∃ sent, sentTo 0x10002 = .ok sent ∧
    ¬Delivered Handle.synHandle 0x10002 sent ∧ Delivered Handle.synHandle 2 sent := by
  refine ⟨_, rfl, fun hd => ?_, ?_⟩
  · exact absurd (delivered_iff.mp hd) (by decide)
  · exact delivered_iff.mpr (by decide)

end Host
