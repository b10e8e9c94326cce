import EbpfDivert.Handle.Inject
import EbpfDivert.Kernel.Theorems.Marks
import Mathlib.Tactic.SplitIfs

open Shared Kernel

namespace Handle

variable {env : Env} {h h' : Handle} {pkt l2 : Bytes} {addr : Address} {fixChecksums : Bool}
variable {ifindex mark : BitVec 32} {redirect : Bool} {gsoSize : BitVec 16}
variable {sock : InjectSock} {sent : Sent}

-- The address of a packet that is delivered through the local output path.
abbrev Address.Local (addr : Address) (h : Handle) : Prop :=
  addr.loopback ∨ (addr.network.ifIdx = h.loIfindex ∧ 0 < addr.network.ifIdx.toInt)

abbrev Address.Outgoing (addr : Address) : Prop :=
  addr.outbound ∨ addr.layer = .networkForward

-- The ways that a packet can take.
inductive Routed (env : Env) (h : Handle) (pkt : Bytes) (addr : Address) :
    Except Errno Sent × Handle → Prop
  | raw (hr : addr.Local h ∨ addr.network.ifIdx.toInt ≤ 0 ∨ (addr.Outgoing ∧ addr.stash = none)) :
    Routed env h pkt addr (sendRawIp env h pkt)
  | out {stash : L2Stash} (hl : ¬addr.Local h) (ho : addr.Outgoing) (hs : addr.stash = some stash)
    (hi : 0 < addr.network.ifIdx.toInt) : Routed env h pkt addr
      (sendAfPacket env h addr.network.ifIdx h.prevent false stash.data pkt stash.gsoSize)
  | lo {l2 : Bytes} (hl : ¬addr.Local h) (ho : ¬addr.Outgoing) (hi : 0 < addr.network.ifIdx.toInt) :
    Routed env h pkt addr (sendAfPacket env h h.loIfindex
      (redirectMarkMask ||| (addr.network.ifIdx &&& 0xFFFF)) true l2 pkt
      (addr.stash.elim 0 (·.gsoSize)))

theorem route_routed : Routed env h pkt addr (route env h pkt addr) := by
  simp only [route]
  by_cases hl : addr.Local h
  case pos =>
    rw [if_pos hl]
    exact .raw (.inl hl)
  rw [if_neg hl]
  by_cases ho : addr.Outgoing
  case pos =>
    rw [if_pos ho]
    cases hs : addr.stash
    case none => exact .raw (.inr <| .inr ⟨ho, hs⟩)
    case some stash =>
      dsimp only
      split_ifs with hi
      case pos => exact .out hl ho hs hi
      case neg => exact .raw (.inr <| .inl <| Int.not_lt.mp hi)
  rw [if_neg ho]
  by_cases hi : addr.network.ifIdx.toInt ≤ 0
  case pos =>
    rw [if_pos hi]
    exact .raw (.inr <| .inl hi)
  case neg =>
    rw [if_neg hi]
    exact .lo hl ho (Int.not_le.mp hi)

-- What a packet needs to be sent at all.
def Injectable (pkt : Bytes) : Prop :=
  20 ≤ pkt.length ∧ (pkt.byte 0 >>> 4 = 4 ∨ pkt.byte 0 >>> 4 = 6)

theorem inject_eq (hp : Injectable pkt) (ha : env.allocOk) : inject env h pkt addr fixChecksums =
    route env h (if fixChecksums then env.calcChecksums pkt (keepChecksums addr) else pkt) addr := by
  have ⟨hl, hv⟩ := hp
  have hn : ¬(pkt.length < 20 ∨ (pkt.byte 0 >>> 4 ≠ 4 ∧ pkt.byte 0 >>> 4 ≠ 6)) := by
    rw [not_or, not_and_or, not_not, not_not]
    exact ⟨Nat.not_lt.mpr hl, hv⟩
  rw [inject, if_neg hn]
  simp [ha]

theorem sendAfPacket_ok (ha : env.allocOk) (hs : env.sockOk) (hse : env.sendOk) :
    ∃ sent, (sendAfPacket env h ifindex mark redirect l2 pkt gsoSize).1 = .ok sent := by
  rw [sendAfPacket, packetSock]
  cases h.socks.find? (·.mark = mark) <;> simp [ha, hs, hse]

-- Every way sends the packet unless the system refuses.
theorem inject_ok (hp : Injectable pkt) (ha : env.allocOk) (hs : env.sockOk) (hse : env.sendOk) :
    ∃ sent, (inject env h pkt addr fixChecksums).1 = .ok sent := by
  rw [inject_eq hp ha]
  generalize (if fixChecksums then env.calcChecksums pkt (keepChecksums addr) else pkt) = pkt'
  have hr : Routed env h pkt' addr _ := route_routed
  generalize route env h pkt' addr = res at hr
  cases hr
  case raw => exact ⟨.raw h.prevent pkt', by simp [sendRawIp, hs, hse]⟩
  case out => exact sendAfPacket_ok ha hs hse
  case lo  => exact sendAfPacket_ok ha hs hse

theorem inject_cases (env : Env) (h : Handle) (pkt : Bytes) (addr : Address) (fixChecksums : Bool) :
    (∃ e, inject env h pkt addr fixChecksums = (.error e, h)) ∨
    ∃ pkt', inject env h pkt addr fixChecksums = route env h pkt' addr := by
  rw [inject]
  split_ifs
  case pos => exact .inl ⟨_, rfl⟩
  case pos => exact .inl ⟨_, rfl⟩
  all_goals exact .inr ⟨_, rfl⟩

-- Every socket that sends to be redirected carries the priority of the handle.
def SocksOk (h : Handle) : Prop :=
  ∀ s ∈ h.socks, upperHalf s.mark = redirectMarkMask →
    s.priority = redirectPrioMagic ||| (h.tcPrio &&& 0xFFFF)

-- A handle that may have opened more sockets in the meantime.
structure Extends (h h' : Handle) : Prop where
  layer     : h'.layer = h.layer
  tcPrio    : h'.tcPrio = h.tcPrio
  loIfindex : h'.loIfindex = h.loIfindex
  socks     : h.SocksOk → h'.SocksOk

theorem Extends.refl : Extends h h :=
  ⟨rfl, rfl, rfl, id⟩

theorem Extends.trans {h'' : Handle} (h₁ : Extends h h') (h₂ : Extends h' h'') : Extends h h'' :=
  ⟨h₂.layer.trans h₁.layer, h₂.tcPrio.trans h₁.tcPrio, h₂.loIfindex.trans h₁.loIfindex,
    h₂.socks ∘ h₁.socks⟩

-- The socket is an open one or a new one with the priority of the handle.
theorem packetSock_cases (ho : packetSock env h mark redirect = .ok (sock, h')) :
    sock.mark = mark ∧ (h' = h ∧ sock ∈ h.socks ∨
      h' = { h with socks := h.socks ++ [sock] } ∧
        (redirect → sock.priority = redirectPrioMagic ||| (h.tcPrio &&& 0xFFFF))) := by
  rw [packetSock] at ho
  cases hf : h.socks.find? (·.mark = mark)
  case some s =>
    rw [hf] at ho
    cases ho
    exact ⟨by simpa using List.find?_some hf, .inl ⟨rfl, List.mem_of_find?_eq_some hf⟩⟩
  case none =>
    rw [hf] at ho
    dsimp only at ho
    split at ho
    case isTrue => cases ho
    case isFalse =>
      cases ho
      exact ⟨rfl, .inr ⟨rfl, fun hr => if_pos hr⟩⟩

theorem packetSock_ok (hr : upperHalf mark = redirectMarkMask → redirect)
    (ho : packetSock env h mark redirect = .ok (sock, h')) : Extends h h' ∧ sock ∈ h'.socks := by
  obtain ⟨rfl, ⟨rfl, hmem⟩ | ⟨rfl, hp⟩⟩ := packetSock_cases ho
  case inl => exact ⟨.refl, hmem⟩
  case inr =>
    refine ⟨⟨rfl, rfl, rfl, fun hs s hm hu => ?_⟩, by simp⟩
    rcases List.mem_append.mp hm with hm | hm
    case inl => exact hs s hm hu
    case inr =>
      obtain rfl := List.mem_singleton.mp hm
      exact hp (hr hu)

theorem sendAfPacket_extends (hr : upperHalf mark = redirectMarkMask → redirect) :
    Extends h (sendAfPacket env h ifindex mark redirect l2 pkt gsoSize).2 := by
  rw [sendAfPacket]
  cases env.allocOk
  case false => exact .refl
  case true =>
    cases ho : packetSock env h mark redirect
    case error => exact .refl
    case ok    => cases env.sendOk <;> exact (packetSock_ok hr ho).left

-- What is sent carries the mark and the priority of the socket.
theorem sendAfPacket_sock
    (ho : (sendAfPacket env h ifindex mark redirect l2 pkt gsoSize).1 = .ok sent) :
    ∃ sock h', packetSock env h mark redirect = .ok (sock, h') ∧
      sent = .frame ⟨ifindex, sock.mark, sock.priority, l2, pkt, gsoSize⟩ := by
  rw [sendAfPacket] at ho
  cases ha : env.allocOk
  case false => simp [ha] at ho
  case true =>
    cases hp : packetSock env h mark redirect
    case error => simp [ha, hp] at ho
    case ok res =>
      cases hn : env.sendOk
      case false => simp [ha, hp, hn] at ho
      case true =>
        simp only [ha, hp, hn, Bool.not_true, Bool.false_eq_true, ↓reduceIte, Except.ok.injEq] at ho
        exact ⟨res.1, res.2, rfl, ho.symm⟩

theorem sendAfPacket_frame
    (ho : (sendAfPacket env h ifindex mark redirect l2 pkt gsoSize).1 = .ok sent) :
    ∃ priority, sent = .frame ⟨ifindex, mark, priority, l2, pkt, gsoSize⟩ := by
  obtain ⟨sock, _, hp, rfl⟩ := sendAfPacket_sock ho
  exact ⟨sock.priority, by rw [(packetSock_cases hp).left]⟩

theorem sendAfPacket_sent (hr : upperHalf mark = redirectMarkMask → redirect) (hs : h.SocksOk)
    (ho : (sendAfPacket env h ifindex mark redirect l2 pkt gsoSize).1 = .ok sent) :
    ∃ priority, sent = .frame ⟨ifindex, mark, priority, l2, pkt, gsoSize⟩ ∧
      (upperHalf mark = redirectMarkMask →
        priority = redirectPrioMagic ||| (h.tcPrio &&& 0xFFFF)) := by
  obtain ⟨sock, h', hp, rfl⟩ := sendAfPacket_sock ho
  have hm : sock.mark = mark := (packetSock_cases hp).left
  have ⟨he, hmem⟩ := packetSock_ok hr hp
  refine ⟨sock.priority, by rw [hm], fun hu => ?_⟩
  rw [← he.tcPrio]
  exact he.socks hs sock hmem (hm ▸ hu)

-- The marks that tell who has sent a packet.
def Signed (h : Handle) : Sent → Prop
  | .raw mark _ => mark = h.prevent
  | .frame f    => f.mark = h.prevent ∨ (f.ifindex = h.loIfindex ∧
    upperHalf f.mark = redirectMarkMask ∧ f.priority = redirectPrioMagic ||| (h.tcPrio &&& 0xFFFF))

theorem prevent_ne_redirect : upperHalf h.prevent = redirectMarkMask → redirect := by
  rw [prevent, upperHalf_or upperHalf_loop]
  exact fun h => absurd h (by decide)

theorem route_extends : Extends h (route env h pkt addr).2 := by
  have hr : Routed env h pkt addr _ := route_routed
  generalize route env h pkt addr = res at hr
  cases hr
  case raw =>
    rw [sendRawIp]
    split_ifs <;> exact .refl
  case out => exact sendAfPacket_extends prevent_ne_redirect
  case lo  => exact sendAfPacket_extends fun _ => rfl

theorem route_signed (hs : h.SocksOk) (ho : (route env h pkt addr).1 = .ok sent) :
    h.Signed sent := by
  have hr : Routed env h pkt addr _ := route_routed
  generalize route env h pkt addr = res at hr ho
  cases hr
  case raw =>
    rw [sendRawIp] at ho
    split_ifs at ho
    cases ho
    rfl
  case out =>
    obtain ⟨_, rfl, _⟩ := sendAfPacket_sent prevent_ne_redirect hs ho
    exact .inl rfl
  case lo =>
    obtain ⟨_, rfl, hp⟩ := sendAfPacket_sent (fun _ => rfl) hs ho
    have hu := upperHalf_or (x := addr.network.ifIdx) upperHalf_redirect
    exact .inr ⟨rfl, hu, hp hu⟩

-- Every way sends the packet as it is.
theorem route_pkt (ho : (route env h pkt addr).1 = .ok sent) : sent.pkt = pkt := by
  have hr : Routed env h pkt addr _ := route_routed
  generalize route env h pkt addr = res at hr ho
  cases hr
  case raw =>
    rw [sendRawIp] at ho
    split_ifs at ho
    cases ho
    rfl
  case out =>
    obtain ⟨_, rfl⟩ := sendAfPacket_frame ho
    rfl
  case lo =>
    obtain ⟨_, rfl⟩ := sendAfPacket_frame ho
    rfl

theorem inject_extends : Extends h (inject env h pkt addr fixChecksums).2 := by
  obtain ⟨_, he⟩ | ⟨_, he⟩ := inject_cases env h pkt addr fixChecksums
  case inl => exact he ▸ .refl
  case inr => exact he ▸ route_extends

theorem inject_signed (hs : h.SocksOk)
    (ho : (inject env h pkt addr fixChecksums).1 = .ok sent) : h.Signed sent := by
  obtain ⟨_, he⟩ | ⟨_, he⟩ := inject_cases env h pkt addr fixChecksums
  case inl => simp [he] at ho
  case inr => exact route_signed hs (he ▸ ho)

end Handle
