import EbpfDivert.Host.Basic
import EbpfDivert.Handle.Theorems.Fate

open Shared Kernel

namespace Host

variable {h h' : Handle} {sent : Handle.Sent} {p q : Port} {ps : List Port} {direction : Dir} {skb skb' : Skb}
variable {env : Env} {c : Handle.ConfigEnv} {t : Tables} {out : Outcome} {host : Setup}
variable {record : PacketBuffer} {recs : List (Port × PacketBuffer)} {exit : Exit}
variable {fx : Handle.Env} {bytes : Bytes} {addr : Handle.Address} {fixChecksums : Bool}
variable {direction' : Dir} {ifindex : BitVec 32} {pkt pkt' : Packet}

-- How a packet that a handle has injected can be recognised at a hook. A redirected packet that no
-- program has seen yet keeps its mark when it is forwarded.
inductive Carries (host : Setup) (h : Handle) (direction : Dir) (skb : Skb) : Prop
  | loop (hm : skb.mark = h.prevent)
  | redirect (hl : skb.ifindex = host.lo) (hm : upperHalf skb.mark = redirectMarkMask)
    (hp : skb.priority = redirectPrioMagic ||| (h.tcPrio &&& 0xFFFF))
  | redirected (hm : skb.mark = redirectedMark ||| (h.tcPrio &&& 0xFFFF))
    (hd : direction = .outbound → skb.ifindex ≠ host.lo ∧ skb.ingressIfindex ≠ 0)

-- What the record of an injected packet says.
structure Later (h : Handle) (q : Port) (record : PacketBuffer) : Prop where
  prio     : h.tcPrio < q.handle.tcPrio
  impostor : Flags.has record.header.flags pktImpostor

theorem later_of_prevent (hm : skb.mark = h.prevent)
    (hr : (processPacket env (q.handle.config c) t skb direction).record = some record) :
    Later h q record := by
  obtain ⟨flags, pkt, sniff, hg, rfl⟩ := record_eq_some hr
  obtain ⟨mark, place, _, hc, -, -, -, rfl⟩ := gate_eq_some hg
  have hu : upperHalf skb.mark = upperHalf (preventMark (q.handle.config c)) := by
    rw [hm, Handle.prevent, upperHalf_or upperHalf_loop]
    exact upperHalf_loop.symm
  have hc := checkMark_eq_some hc
  constructor
  case prio =>
    have := hc.later hu
    rwa [hm, Handle.prevent, lowerHalf_or upperHalf_loop, and_of_le h.prio_le] at this
  case impostor => simp [recordOf, pktHeader, hc.flags_eq, hu]

-- Packets that are to be redirected are not captured.
theorem record_of_redirect (hm : upperHalf skb.mark = redirectMarkMask) :
    (processPacket env (q.handle.config c) t skb direction).record = none := by
  by_contra hr
  obtain ⟨record, hr⟩ := Option.ne_none_iff_exists'.mp hr
  obtain ⟨flags, pkt, sniff, hg, rfl⟩ := record_eq_some hr
  obtain ⟨mark, place, _, hc, _⟩ := gate_eq_some hg
  exact (checkMark_eq_some hc).notRedirect hm

theorem has_config_forward :
    Flags.has (h.config c).flags cfgForward = decide (h.layer = .networkForward) := by
  simp [Handle.config]

-- Neither are forwarded packets on the network layer.
theorem record_of_forwarded (hq : q.handle.layer = .network) (hl : skb.ifindex ≠ q.handle.loIfindex)
    (h₀ : skb.ingressIfindex ≠ 0) :
    (processPacket env (q.handle.config c) t skb .outbound).record = none := by
  by_contra hr
  obtain ⟨record, hr⟩ := Option.ne_none_iff_exists'.mp hr
  obtain ⟨flags, pkt, sniff, hg, rfl⟩ := record_eq_some hr
  obtain ⟨mark, place, _, _, hp, _⟩ := gate_eq_some hg
  have hf := (checkPlace_eq_some hp).outbound rfl
  have hlo : isLo (q.handle.config c) skb = false := decide_eq_false hl
  rw [has_config_forward, hq, forwarded, hlo] at hf
  exact h₀ (by simpa using hf)

-- One program at a hook.
structure Done (host : Setup) (h : Handle) (q : Port) (direction : Dir) (out : Outcome) (skb' : Skb) :
    Prop where
  carries : Carries host h direction skb'
  later   : ∀ record ∈ out.record, Later h q record

theorem upperHalf_prevent : upperHalf h.prevent = loopPreventionMark :=
  upperHalf_or upperHalf_loop

theorem done_of_prevent (hm : skb.mark = h.prevent) : Done host h q .inbound
    (processPacket env (q.handle.config c) t skb .inbound) skb where
  carries    := .loop hm
  later _ hr := later_of_prevent hm hr

theorem hook_done (hq : q.handle.layer = .network) (hlo : q.handle.loIfindex = host.lo)
    (hc : Carries host h direction skb)
    (hk : hook direction env (q.handle.config c) t skb = (.done out, skb')) :
    Done host h q direction out skb' := by
  cases direction
  case outbound =>
    cases hk
    refine ⟨hc, fun record hr => ?_⟩
    cases hc
    case loop hm             => exact later_of_prevent hm hr
    case redirect hm _       => simp [record_of_redirect hm] at hr
    case redirected hd =>
      have ⟨hl, h₀⟩ := hd rfl
      simp [record_of_forwarded hq (hlo ▸ hl) h₀] at hr
  case inbound =>
    by_cases hr : upperHalf skb.mark = redirectMarkMask
    case pos =>
      rw [hook, tcDivertIngress, if_pos hr] at hk
      cases hk
    case neg =>
      rw [hook, tcDivertIngress, if_neg hr] at hk
      by_cases hm : upperHalf skb.mark = redirectedMark
      case pos =>
        rw [if_pos hm] at hk
        cases hk
        refine done_of_prevent ?_
        cases hc
        case loop hl         => exact absurd (hl ▸ hm) (upperHalf_prevent ▸ by decide)
        case redirect hn _   => exact absurd hn hr
        case redirected hn _ => simp only [hn, lowerHalf_or upperHalf_redirected, Handle.prevent]
      case neg =>
        rw [if_neg hm] at hk
        cases hk
        cases hc
        case loop hl         => exact done_of_prevent hl
        case redirect hn _   => exact absurd hn hr
        case redirected hn _ => exact absurd (hn ▸ upperHalf_or upperHalf_redirected) hm

theorem hook_redirect (hc : Carries host h direction skb)
    (hk : hook direction env (q.handle.config c) t skb = (.redirect ifindex, skb')) :
    skb'.mark = redirectedMark ||| (h.tcPrio &&& 0xFFFF) := by
  cases direction
  case outbound => cases hk
  case inbound =>
    by_cases hr : upperHalf skb.mark = redirectMarkMask
    case neg =>
      rw [hook, tcDivertIngress, if_neg hr] at hk
      cases hk
    case pos =>
      rw [hook, tcDivertIngress, if_pos hr] at hk
      cases hk
      cases hc
      case loop hl       => exact absurd (hl ▸ hr) (upperHalf_prevent ▸ by decide)
      case redirect hp   =>
        simp only [hp, upperHalf_or upperHalf_magic, lowerHalf_or upperHalf_magic, ↓reduceIte]
      case redirected hn _ =>
        rw [hn, upperHalf_or upperHalf_redirected] at hr
        exact absurd hr (by decide)

-- All programs at a hook.
def Left (host : Setup) (h : Handle) (direction : Dir) : Exit → Prop
  | .passed skb'       => Carries host h direction skb'
  | .gone              => True
  | .redirected _ skb' => skb'.mark = redirectedMark ||| (h.tcPrio &&& 0xFFFF)

theorem mem_of_submitted (hm : (q, record) ∈ out.record.toList.map (p, ·)) :
    q = p ∧ record ∈ out.record := by
  obtain ⟨r, hr, he⟩ := List.mem_map.mp hm
  cases he
  exact ⟨rfl, Option.mem_toList.mp hr⟩

theorem RunHook.left (hr : RunHook direction ps skb recs exit) (hq : ∀ q ∈ ps, q ∈ host.ports)
    (hc : Carries host h direction skb) : Left host h direction exit ∧
      ∀ q record, (q, record) ∈ recs → Later h q record := by
  induction hr
  case nil => exact ⟨hc, by simp⟩
  case next hk ha hr ih =>
    have ⟨hp, hq⟩ := List.forall_mem_cons.mp hq
    have hd := hook_done (host.layer _ hp) (host.same_lo _ hp) hc hk
    have ⟨hl, hrec⟩ := ih hq hd.carries
    refine ⟨hl, fun q record hm => ?_⟩
    rcases List.mem_append.mp hm with hm | hm
    case inl =>
      obtain ⟨rfl, ho⟩ := mem_of_submitted hm
      exact hd.later record ho
    case inr => exact hrec q record hm
  case stop hk ha =>
    have hp := hq _ (.head _)
    refine ⟨trivial, fun q record hm => ?_⟩
    obtain ⟨rfl, ho⟩ := mem_of_submitted hm
    exact (hook_done (host.layer _ hp) (host.same_lo _ hp) hc hk).later record ho
  case redirect hk => exact ⟨hook_redirect hc hk, by simp⟩

theorem RunHook.mem_ports (hr : RunHook direction ps skb recs exit) (hm : (q, record) ∈ recs) :
    q ∈ ps := by
  induction hr
  case nil => cases hm
  case next ih =>
    rcases List.mem_append.mp hm with hm | hm
    case inl => exact (mem_of_submitted hm).left ▸ .head _
    case inr => exact .tail _ <| ih hm
  case stop     => exact (mem_of_submitted hm).left ▸ .head _
  case redirect => cases hm

-- A packet that is to be redirected does not get past an ingress program.
theorem ingress_done (hk : hook .inbound env (q.handle.config c) t skb = (.done out, skb')) :
    upperHalf skb'.mark ≠ redirectMarkMask := by
  by_cases hr : upperHalf skb.mark = redirectMarkMask
  case pos =>
    rw [hook, tcDivertIngress, if_pos hr] at hk
    cases hk
  case neg =>
    rw [hook, tcDivertIngress, if_neg hr] at hk
    by_cases hm : upperHalf skb.mark = redirectedMark
    case pos =>
      rw [if_pos hm] at hk
      cases hk
      simp only [upperHalf_or upperHalf_loop]
      decide
    case neg =>
      rw [if_neg hm] at hk
      cases hk
      exact hr

theorem RunHook.not_redirect (hr : RunHook .inbound ps skb recs (.passed skb')) (hp : ps ≠ []) :
    upperHalf skb'.mark ≠ redirectMarkMask := by
  generalize he : Exit.passed skb' = exit at hr
  induction hr
  case nil => contradiction
  case next ps _ _ _ _ _ _ _ hk _ hr ih =>
    cases ps
    case nil =>
      cases hr
      cases he
      exact ingress_done hk
    case cons => exact ih (by simp) he
  case stop     => cases he
  case redirect => cases he

theorem mem_attached (hp : p ∈ host.attached ifindex) : p ∈ host.ports :=
  (List.mem_filter.mp hp).left

theorem attached_lo (hp : p ∈ host.ports) : p ∈ host.attached host.lo :=
  List.mem_filter.mpr ⟨hp, host.on_lo p hp⟩

theorem RunHook.behind (hr : RunHook direction (host.attached skb.ifindex) skb recs (.passed skb'))
    (hp : p ∈ host.ports) (hc : Carries host p.handle direction skb) :
    Carries host p.handle direction skb' ∧
      (direction = .inbound → upperHalf skb'.mark ≠ redirectMarkMask) := by
  refine ⟨(hr.left (fun _ => mem_attached) hc).left, ?_⟩
  rintro rfl
  by_cases ha : host.attached skb.ifindex = []
  case neg => exact hr.not_redirect ha
  case pos =>
    rw [ha] at hr
    cases hr
    cases hc
    case loop hm         => exact hm ▸ upperHalf_prevent ▸ by decide
    case redirect hl _ _ => exact absurd ha <| List.ne_nil_of_mem (hl ▸ attached_lo hp)
    case redirected hm _ =>
      rw [hm, upperHalf_or upperHalf_redirected]
      decide

-- What keeps its mark on its way to the next hook.
theorem Carries.moved (hc : Carries host h direction skb) (hm : skb'.mark = skb.mark)
    (hr : skb.ifindex = host.lo → upperHalf skb.mark = redirectMarkMask →
      skb'.ifindex = host.lo ∧ skb'.priority = skb.priority)
    (hd : direction' = .outbound → skb'.ifindex ≠ host.lo ∧
      ((direction = .outbound → skb.ingressIfindex ≠ 0) → skb'.ingressIfindex ≠ 0)) :
    Carries host h direction' skb' := by
  cases hc
  case loop hl => exact .loop <| hm.trans hl
  case redirect hl hn hp =>
    have ⟨hi, hq⟩ := hr hl hn
    exact .redirect hi (hm ▸ hn) (hq.trans hp)
  case redirected hn ho =>
    exact .redirected (hm.trans hn) fun h => ⟨(hd h).left, (hd h).right fun h => (ho h).right⟩

theorem carries_of_signed (hx : h.Extends h') (hlo : h.loIfindex = host.lo) (hs : h'.Signed sent)
    (he : Emits sent skb) : Carries host h direction skb := by
  have hv : h'.prevent = h.prevent := by rw [Handle.prevent, hx.tcPrio, Handle.prevent]
  cases he
  case raw hm _ => exact .loop <| hm.trans (hs.trans hv)
  case frame hi hm hp _ =>
    rcases hs with hs | ⟨hi', hm', hp'⟩
    case inl => exact .loop <| hm.trans (hs.trans hv)
    case inr =>
      rw [hx.loIfindex, hlo] at hi'
      exact .redirect (hi.trans hi') (hm ▸ hm') (hp.trans (hx.tcPrio ▸ hp'))

theorem Sender.extends (hs : Sender h h') : h.Extends h' := by
  induction hs
  case refl         => exact .refl
  case inject hs ih => exact ih.trans Handle.inject_extends

theorem carries_of_inject (hp : p ∈ host.ports) (hs : Sender p.handle h)
    (ho : (Handle.inject fx h bytes addr fixChecksums).1 = .ok sent) (he : Emits sent skb) :
    Carries host p.handle direction skb := by
  have hk : p.handle.SocksOk := by simp [Handle.SocksOk, host.fresh p hp]
  have hg := Handle.inject_signed (hs.extends.socks hk) ho
  exact carries_of_signed hs.extends (host.same_lo p hp) hg he

-- Where a packet can be whose last captor is the head of the chain.
def Placed (host : Setup) (chain : List Port) : Place → Prop
  | .before dir skb => ∀ q ∈ chain.head?, Carries host q.handle dir skb
  | .behind dir skb => ∀ q ∈ chain.head?, Carries host q.handle dir skb ∧
      (dir = .inbound → upperHalf skb.mark ≠ redirectMarkMask)
  | .held p record  => ∃ rest, chain = p :: rest ∧
      (rest ≠ [] → Flags.has record.header.flags pktImpostor)

structure Packet.Ok (host : Setup) (pkt : Packet) : Prop where
  sorted : pkt.chain.Pairwise (fun q p => p.handle.tcPrio < q.handle.tcPrio)
  ports  : ∀ p ∈ pkt.chain, p ∈ host.ports
  placed : Placed host pkt.chain pkt.place

theorem Packet.Original.ok (ho : pkt.Original) : pkt.Ok host := by
  obtain ⟨hc, direction, skb, hp⟩ := ho
  constructor
  case sorted => simp [hc]
  case ports  => simp [hc]
  case placed => simp [hc, hp, Placed]

theorem capture_sorted {chain : List Port}
    (hs : chain.Pairwise (fun q p => p.handle.tcPrio < q.handle.tcPrio))
    (hl : ∀ q ∈ chain.head?, q.handle.tcPrio < p.handle.tcPrio) :
    (p :: chain).Pairwise (fun q p => p.handle.tcPrio < q.handle.tcPrio) := by
  refine .cons ?_ hs
  cases chain
  case nil => simp
  case cons q rest =>
    have hq := hl q rfl
    refine List.forall_mem_cons.mpr ⟨hq, fun r hr => ?_⟩
    exact BitVec.lt_trans (List.rel_of_pairwise_cons hs hr) hq

theorem Step.ok (hs : Step host pkt pkt') (ho : pkt.Ok host) : pkt'.Ok host := by
  have ⟨hsort, hports, hp⟩ := ho
  have hhead : ∀ q ∈ pkt.chain.head?, q ∈ host.ports := fun q hq => hports q (List.mem_of_head? hq)
  cases hs
  case capture chain hr hm =>
    have hl q (hq : q ∈ chain.head?) := (hr.left (fun _ => mem_attached) (hp q hq)).right _ _ hm
    constructor
    case sorted => exact capture_sorted hsort fun q hq => (hl q hq).prio
    case ports  => exact List.forall_mem_cons.mpr ⟨mem_attached <| hr.mem_ports hm, hports⟩
    case placed =>
      refine ⟨chain, rfl, fun hn => ?_⟩
      obtain ⟨q, rest, rfl⟩ := List.exists_cons_of_ne_nil hn
      exact (hl q rfl).impostor
  case pass hr => exact ⟨hsort, hports, fun q hq => hr.behind (hhead q hq) (hp q hq)⟩
  case redirect hr hi hm =>
    refine ⟨hsort, hports, fun q hq => .redirected ?_ nofun⟩
    exact hm.trans (hr.left (fun _ => mem_attached) (hp q hq)).left
  case loop hl hi hm hpr =>
    exact ⟨hsort, hports, fun q hq => (hp q hq).left.moved hm (fun _ _ => ⟨hi, hpr⟩) nofun⟩
  case lower hl hl' hm h₀ =>
    refine ⟨hsort, hports, fun q hq => (hp q hq).left.moved hm (absurd · hl) fun _ => ?_⟩
    exact ⟨hl', fun hi => h₀ ▸ hi rfl⟩
  case peer hl hm =>
    exact ⟨hsort, hports, fun q hq => (hp q hq).left.moved hm (absurd · hl) nofun⟩
  case upper hm =>
    refine ⟨hsort, hports, fun q hq => (hp q hq).left.moved hm (fun _ hr => ?_) nofun⟩
    exact absurd hr ((hp q hq).right rfl)
  case forward hl' hm h₀ =>
    refine ⟨hsort, hports, fun q hq => (hp q hq).left.moved hm (fun _ hr => ?_) fun _ => ?_⟩
    · exact absurd hr ((hp q hq).right rfl)
    · exact ⟨hl', fun _ => h₀⟩
  case inject hs hi he =>
    obtain ⟨rest, rfl, _⟩ := hp
    refine ⟨hsort, hports, fun q hq => ?_⟩
    cases hq
    exact carries_of_inject (hports _ (.head _)) hs hi he

theorem Run.ok (hr : Run host pkt pkt') (ho : pkt.Ok host) : pkt'.Ok host := by
  induction hr
  case refl           => exact ho
  case tail _ hs ih   => exact hs.ok ih

-- Along every chain of injections the capturing priorities strictly increase, no handle captures
-- twice, and every captor but the first one is told that the packet has been injected.
theorem chain_increases (ho : pkt.Original) (hr : Run host pkt pkt') :
    pkt'.chain.Pairwise (fun later earlier => earlier.handle.tcPrio < later.handle.tcPrio) ∧
    (pkt'.chain.map (·.handle.tcPrio)).Nodup ∧
    ∀ p record, pkt'.place = .held p record → ∃ rest, pkt'.chain = p :: rest ∧
      (rest ≠ [] → Flags.has record.header.flags pktImpostor) := by
  have ⟨hs, _, hp⟩ := hr.ok ho.ok
  refine ⟨hs, ?_, fun p record he => ?_⟩
  · exact List.pairwise_map.mpr <| hs.imp fun hl he => absurd (he ▸ hl) (BitVec.lt_irrefl _)
  · rwa [he] at hp

def everything (h : Handle) : Port where
  handle  := h
  tables  := catchAll 0
  devices := fun _ => true

def firstPort : Port :=
  everything Handle.synHandle

def secondPort : Port :=
  everything { Handle.synHandle with tcPrio := 30002, prio_le := by decide }

def twoPorts : Setup where
  lo      := 1
  ports   := [firstPort, secondPort]
  sorted  := by simp only [List.pairwise_pair]; decide
  layer   := by simp only [List.forall_mem_cons]; exact ⟨rfl, rfl, nofun⟩
  same_lo := by simp only [List.forall_mem_cons]; exact ⟨rfl, rfl, nofun⟩
  on_lo   := by simp only [List.forall_mem_cons]; exact ⟨rfl, rfl, nofun⟩
  fresh   := by simp only [List.forall_mem_cons]; exact ⟨rfl, rfl, nofun⟩

def sight (p : Port) (skb : Skb) : Outcome :=
  processPacket okEnv (p.handle.config Handle.calmConfig) p.tables skb .outbound

-- What the first handle captures, and what it sends.
def firstRecord : PacketBuffer :=
  (sight firstPort Handle.synSkb).record.get rfl

def firstAddress : Handle.Address :=
  Handle.recordAddress Handle.calmEnv firstPort.handle firstRecord.header Handle.synFrame

def againSkb : Skb :=
  { Handle.synSkb with mark := firstPort.handle.prevent }

def secondRecord : PacketBuffer :=
  (sight secondPort againSkb).record.get rfl

theorem chain_increases_twice :
    Run twoPorts ⟨.before .outbound Handle.synSkb, []⟩
      ⟨.held secondPort secondRecord, [secondPort, firstPort]⟩ ∧
    Flags.has secondRecord.header.flags pktImpostor := by
  have ho : Packet.Original ⟨.before .outbound Handle.synSkb, []⟩ := ⟨rfl, _, _, rfl⟩
  have h₁ : hook .outbound okEnv (firstPort.handle.config Handle.calmConfig) firstPort.tables
      Handle.synSkb = (.done (sight firstPort Handle.synSkb), Handle.synSkb) := rfl
  have h₂ : hook .outbound okEnv (firstPort.handle.config Handle.calmConfig) firstPort.tables
      againSkb = (.done (sight firstPort againSkb), againSkb) := rfl
  have h₃ : hook .outbound okEnv (secondPort.handle.config Handle.calmConfig) secondPort.tables
      againSkb = (.done (sight secondPort againSkb), againSkb) := rfl
  have hi : (Handle.inject Handle.calmEnv firstPort.handle (Handle.synFrame.drop 14) firstAddress
      false).1 = .ok _ := rfl
  have s₁ : Step twoPorts ⟨.before .outbound Handle.synSkb, []⟩
      ⟨.held firstPort firstRecord, [firstPort]⟩ := .capture (.stop h₁ (by decide)) (.head _)
  have s₂ : Step twoPorts ⟨.held firstPort firstRecord, [firstPort]⟩
      ⟨.before .outbound againSkb, [firstPort]⟩ := .inject .refl hi (.frame rfl rfl rfl rfl)
  have s₃ : Step twoPorts ⟨.before .outbound againSkb, [firstPort]⟩
      ⟨.held secondPort secondRecord, [secondPort, firstPort]⟩ :=
    .capture (.next h₂ (by decide) (.stop h₃ (by decide))) (.head _)
  have hr := Relation.ReflTransGen.single s₁ |>.tail s₂ |>.tail s₃
  obtain ⟨rest, he, himp⟩ := (chain_increases ho hr).right.right _ _ rfl
  cases he
  exact ⟨hr, himp (by simp)⟩

end Host
