import EbpfDivert.Kernel.Process
import EbpfDivert.Kernel.Theorems.Parse

open Shared
open Flags (flagIf)

namespace Kernel

variable {env : Env} {cfg : DivertConfig} {t : Tables} {skb : Skb} {direction : Dir}
variable {flags mm : BitVec 16} {pkt : ParsedPacket} {frame : Bytes}

-- The checks that `process_packet` makes before it asks the rules: shutdown, heartbeat, marks,
-- loopback, direction, layer, fragments and forwarding. None if the packet is let through.
def gate (env : Env) (cfg : DivertConfig) (skb : Skb) (direction : Dir) :
    Option (BitVec 16 × ParsedPacket) := do
  if Flags.has cfg.flags cfgShutdown || ownerGone cfg env.now || !env.pullOk then none
  else
    let mark ← checkMark cfg skb.mark
    let place ← checkPlace cfg skb direction
    let pkt ← parsePacket skb.pulled
    let pkt := { pkt with isLo := isLo cfg skb }
    if skipped env cfg skb direction pkt then none
    else some (mark ||| place ||| flagIf pkt.fragment pktFragment, pkt)

-- What becomes of a packet that comes this far.
def judge (env : Env) (cfg : DivertConfig) (t : Tables) (skb : Skb) (direction : Dir)
    (flags : BitVec 16) (pkt : ParsedPacket) : Outcome :=
  match select t pkt direction with
  | none    => .pass none
  | some mm => act env cfg skb pkt direction flags mm

-- A run of `process_packet`: the packet is let through unseen or it meets the rules.
inductive Run (env : Env) (cfg : DivertConfig) (t : Tables) (skb : Skb) (direction : Dir) :
    Outcome → Prop
  | pass {stat : Option Stat} :
    gate env cfg skb direction = none → Run env cfg t skb direction (.pass stat)
  | judge {flags : BitVec 16} {pkt : ParsedPacket} :
    gate env cfg skb direction = some (flags, pkt) →
    Run env cfg t skb direction (judge env cfg t skb direction flags pkt)

-- The counters of packets that are let through unseen.
def unseen : List (Option Stat) :=
  [none, some .ownerGone, some .parsingErr]

theorem processPacket_cases :
    (gate env cfg skb direction = none ∧
      ∃ stat ∈ unseen, processPacket env cfg t skb direction = .pass stat) ∨
    ∃ flags pkt, gate env cfg skb direction = some (flags, pkt) ∧
      processPacket env cfg t skb direction = judge env cfg t skb direction flags pkt := by
  rw [processPacket]
  by_cases hs : Flags.has cfg.flags cfgShutdown
  case pos => exact .inl ⟨by simp [gate, hs], none, by simp [unseen], by simp [hs]⟩
  by_cases ho : ownerGone cfg env.now
  case pos => exact .inl ⟨by simp [gate, ho], some .ownerGone, by simp [unseen], by simp [hs, ho]⟩
  simp only [hs, ho, Bool.false_eq_true, ↓reduceIte]
  cases hm : checkMark cfg skb.mark
  case none => exact .inl ⟨by simp [gate, hm], none, by simp [unseen], rfl⟩
  cases hp : checkPlace cfg skb direction
  case none => exact .inl ⟨by simp [gate, hm, hp], none, by simp [unseen], rfl⟩
  case some.some mark place =>
    cases hl : env.pullOk
    case false => exact .inl ⟨by simp [gate, hl], some .parsingErr, by simp [unseen], rfl⟩
    cases hk : parsePacket skb.pulled
    case none => exact .inl ⟨by simp [gate, hk], none, by simp [unseen], rfl⟩
    case true.some pkt =>
      simp only [Bool.not_true, Bool.false_eq_true, ↓reduceIte, inspect]
      split_ifs with hf
      case pos => exact .inl ⟨by simp [gate, hm, hp, hk, hf], none, by simp [unseen], rfl⟩
      case neg => exact .inr ⟨_, _, by simp [gate, hs, ho, hl, hm, hp, hk, hf], rfl⟩

theorem processPacket_run : Run env cfg t skb direction (processPacket env cfg t skb direction) := by
  obtain ⟨hg, stat, _, h⟩ | ⟨flags, pkt, hg, h⟩ := @processPacket_cases env cfg t skb direction
  case inl =>
    rw [h]
    exact .pass hg
  case inr =>
    rw [h]
    exact .judge hg

theorem processPacket_of_gate (h : gate env cfg skb direction = some (flags, pkt)) :
    processPacket env cfg t skb direction = judge env cfg t skb direction flags pkt := by
  have hr : Run env cfg t skb direction _ := processPacket_run
  generalize processPacket env cfg t skb direction = out at hr
  cases hr <;> simp_all

theorem processPacket_of_gate_none (h : gate env cfg skb direction = none) :
    (processPacket env cfg t skb direction).act = .unspec ∧
    (processPacket env cfg t skb direction).record = none := by
  have hr : Run env cfg t skb direction _ := processPacket_run
  generalize processPacket env cfg t skb direction = out at hr
  cases hr
  case pass    => exact ⟨rfl, rfl⟩
  case judge _ => simp_all

theorem gate_eq_some (h : gate env cfg skb direction = some (flags, pkt)) :
    ∃ mark place pkt', checkMark cfg skb.mark = some mark ∧
      checkPlace cfg skb direction = some place ∧ parsePacket skb.pulled = some pkt' ∧
      pkt = { pkt' with isLo := isLo cfg skb } ∧
      flags = mark ||| place ||| flagIf pkt.fragment pktFragment := by
  simp only [gate] at h
  split_ifs at h with hs
  simp only [Option.bind_eq_bind, Option.bind_eq_some_iff] at h
  obtain ⟨mark, hm, place, hp, pkt', hk, h⟩ := h
  split_ifs at h
  cases h
  exact ⟨mark, place, pkt', hm, hp, hk, rfl, rfl⟩

-- The mark that a handle takes for that of an injected packet.
def preventMark (cfg : DivertConfig) : BitVec 32 :=
  if cfg.loopPreventionMark ≠ 0 then cfg.loopPreventionMark else loopPreventionMark

structure CheckedMark (cfg : DivertConfig) (mark : BitVec 32) (flags : BitVec 16) : Prop where
  notRedirect : upperHalf mark ≠ redirectMarkMask
  later       : upperHalf mark = upperHalf (preventMark cfg) → mark &&& 0xFFFF < cfg.priority
  flags_eq    : flags = flagIf (upperHalf mark = upperHalf (preventMark cfg)) pktImpostor

theorem checkMark_eq_some {mark : BitVec 32} (h : checkMark cfg mark = some flags) :
    CheckedMark cfg mark flags := by
  rw [checkMark, ← preventMark] at h
  by_cases hm : upperHalf mark = upperHalf (preventMark cfg) ∧ cfg.priority ≤ mark &&& 0xFFFF
  case pos => exact absurd ((if_pos hm).symm.trans h) nofun
  rw [if_neg hm] at h
  by_cases hr : upperHalf mark = redirectMarkMask
  case pos => exact absurd ((if_pos hr).symm.trans h) nofun
  rw [if_neg hr] at h
  exact {
    notRedirect := hr
    later       := fun hi => BitVec.not_le.mp fun hp => hm ⟨hi, hp⟩
    flags_eq    := (Option.some.inj h).symm
  }

structure CheckedPlace (cfg : DivertConfig) (skb : Skb) (direction : Dir) (flags : BitVec 16) :
    Prop where
  inbound  : direction = .inbound → isLo cfg skb = false ∧ Flags.has cfg.flags cfgForward = false
  outbound : direction = .outbound → forwarded cfg skb = Flags.has cfg.flags cfgForward
  flags_eq : flags = flagIf (isLo cfg skb) pktLoopback |||
    flagIf (direction = .outbound ∧ forwarded cfg skb) pktForward

theorem checkPlace_eq_some (h : checkPlace cfg skb direction = some flags) :
    CheckedPlace cfg skb direction flags := by
  simp only [checkPlace] at h
  cases direction
  case inbound =>
    by_cases hl : isLo cfg skb
    case pos => simp [hl] at h
    by_cases hf : Flags.has cfg.flags cfgForward
    case pos => simp [hf] at h
    constructor <;> simp_all [flagIf]
  case outbound =>
    by_cases hf : forwarded cfg skb = Flags.has cfg.flags cfgForward
    case neg => simp [hf] at h
    constructor <;> simp_all

theorem gate_flags (h : gate env cfg skb direction = some (flags, pkt)) :
    Flags.has flags pktFragment = pkt.fragment ∧ Flags.has flags pktSniffed = false := by
  obtain ⟨mark, place, _, hm, hp, _, _, rfl⟩ := gate_eq_some h
  rw [(checkMark_eq_some hm).flags_eq, (checkPlace_eq_some hp).flags_eq]
  simp

-- The IP header that the packet was recognised by.
theorem gate_packet (h : gate env cfg skb direction = some (flags, pkt)) :
    pkt.l2Len ≤ 22 ∧ pkt.l2Len + 20 ≤ skb.len ∧ skb.bytes.byte pkt.l2Len >>> 4 = pkt.ver.code := by
  obtain ⟨_, _, pkt', _, _, hk, rfl, _⟩ := gate_eq_some h
  have ⟨hf, hl, hv⟩ := parsePacket_eq_some hk
  have hlen := hl.length_le
  rw [Skb.pulled] at hv hlen
  rw [List.length_take] at hlen
  rw [Bytes.byte_take (by omega)] at hv
  refine ⟨findL2_le hf, ?_, hv⟩
  simp only [Skb.len]
  omega

theorem roomFor_cases (n : Nat) : roomFor n = 2 ^ 11 ∨ roomFor n = 2 ^ 14 ∨ roomFor n = 2 ^ 16 := by
  simp only [roomFor, divertMaxPacket]
  split_ifs <;> simp

theorem le_roomFor {n : Nat} (h : n ≤ divertMaxPacket) : n ≤ roomFor n := by
  simp only [roomFor, divertMaxPacket] at *
  split_ifs <;> omega

-- The clamped length is the length.
theorem clampLen_roomFor {n : Nat} (h₁ : 0 < n) (h : n ≤ divertMaxPacket) :
    clampLen n (roomFor n) = n := by
  have hn := le_roomFor h
  rw [clampLen]
  rcases roomFor_cases n with hr | hr | hr <;> rw [hr] at hn ⊢ <;> omega

theorem emitPacket_eq {n : Nat} (h₁ : 0 < n) (h : n ≤ divertMaxPacket) (hn : n ≤ skb.len) :
    emitPacket env skb pkt direction flags n = if env.reserveOk then
      .ok ⟨pktHeader env skb pkt direction flags n, skb.bytes.take n, roomFor n⟩
    else .error .ringbufFull := by
  simp only [emitPacket, clampLen_roomFor h₁ h, Nat.not_lt.mpr hn, ↓reduceIte]
  cases env.reserveOk <;> rfl

-- How much of a packet is copied.
def snapLen (cfg : DivertConfig) : Nat :=
  min (if cfg.snaplen ≠ 0 then cfg.snaplen.toNat else divertMaxPacket) divertMaxPacket

theorem snapLen_pos : 0 < snapLen cfg := by
  rw [snapLen, divertMaxPacket]
  split_ifs with h
  case pos =>
    have : cfg.snaplen.toNat ≠ 0 := fun h' => h (BitVec.eq_of_toNat_eq h')
    omega
  case neg => omega

-- The record of a packet, cut off after `snapLen` bytes.
def recordOf (env : Env) (cfg : DivertConfig) (skb : Skb) (pkt : ParsedPacket) (direction : Dir)
    (flags : BitVec 16) : PacketBuffer :=
  let n := min skb.len (snapLen cfg)
  ⟨pktHeader env skb pkt direction flags n, skb.bytes.take n, roomFor n⟩

-- What happens to a packet that a rule matches: it is dropped, passed because it cannot be copied,
-- or recorded.
inductive Acted (env : Env) (cfg : DivertConfig) (skb : Skb) (pkt : ParsedPacket) (direction : Dir)
    (flags mm : BitVec 16) : Outcome → Prop
  | drop (hd : Flags.has mm matchDrop) : Acted env cfg skb pkt direction flags mm
      ⟨.shot, none, some .dropped⟩
  | pass {stat : Stat} (hd : Flags.has mm matchDrop = false)
    (hf : (snapLen cfg < skb.len ∧ Flags.has mm matchSniff = false) ∨ env.reserveOk = false) :
    Acted env cfg skb pkt direction flags mm (.pass (some stat))
  | sniff (hd : Flags.has mm matchDrop = false) (hs : Flags.has mm matchSniff)
    (hr : env.reserveOk) : Acted env cfg skb pkt direction flags mm
      ⟨.unspec, some (recordOf env cfg skb pkt direction (flags ||| pktSniffed)), some .sniffed⟩
  | divert (hd : Flags.has mm matchDrop = false) (hs : Flags.has mm matchSniff = false)
    (hr : env.reserveOk) (hl : skb.len ≤ snapLen cfg) : Acted env cfg skb pkt direction flags mm
      ⟨.stolen, some (recordOf env cfg skb pkt direction flags), some .diverted⟩

theorem emitPacket_snapLen (hl : 0 < skb.len) :
    emitPacket env skb pkt direction flags (min skb.len (snapLen cfg)) = if env.reserveOk then
      .ok (recordOf env cfg skb pkt direction flags) else .error .ringbufFull := by
  have : 0 < snapLen cfg := snapLen_pos
  exact emitPacket_eq (by omega) (by rw [snapLen]; omega) (by omega)

theorem act_acted (hl : 0 < skb.len) : Acted env cfg skb pkt direction flags mm
    (act env cfg skb pkt direction flags mm) := by
  rw [act]
  dsimp only
  rw [← snapLen, emitPacket_snapLen hl]
  by_cases hd : Flags.has mm matchDrop
  case pos =>
    rw [if_pos hd]
    exact .drop hd
  rw [if_neg hd]
  replace hd : Flags.has mm matchDrop = false := by simpa using hd
  by_cases hb : snapLen cfg < skb.len ∧ !Flags.has mm matchSniff
  case pos =>
    rw [if_pos hb]
    exact .pass hd (.inl (by simpa using hb))
  rw [if_neg hb]
  cases hr : env.reserveOk
  case false => exact .pass hd (.inr hr)
  case true =>
    cases hs : Flags.has mm matchSniff
    case false =>
      have hl : skb.len ≤ snapLen cfg := by simpa [hs] using hb
      simpa [flagIf] using .divert hd hs hr hl
    case true => exact .sniff hd hs hr

-- The counters say whether a packet has met a rule that matches it.
theorem act_stat (hl : 0 < skb.len) :
    ∃ stat ∈ [Stat.dropped, .tooBig, .ringbufFull, .sniffed, .diverted],
      (act env cfg skb pkt direction flags mm).stat = some stat := by
  rw [act]
  dsimp only
  rw [← snapLen, emitPacket_snapLen hl]
  split_ifs <;> simp [Outcome.pass]

theorem processPacket_unseen (h : gate env cfg skb direction = none) :
    ∃ stat ∈ unseen, processPacket env cfg t skb direction = .pass stat := by
  rcases processPacket_cases with ⟨_, hp⟩ | ⟨_, _, hg, _⟩
  case inl => exact hp
  case inr => simp [h] at hg

theorem act_record_isSome (hl : 0 < skb.len) (hd : Flags.has mm matchDrop = false)
    (hf : skb.len ≤ snapLen cfg ∨ Flags.has mm matchSniff) (hr : env.reserveOk) :
    (act env cfg skb pkt direction flags mm).record.isSome := by
  have ha : Acted env cfg skb pkt direction flags mm _ := act_acted hl
  generalize act env cfg skb pkt direction flags mm = out at ha
  cases ha
  case drop h   => simp [hd] at h
  case pass h   =>
    rcases h with ⟨h₁, h₂⟩ | h
    case inl =>
      simp only [h₂, Bool.false_eq_true, or_false] at hf
      omega
    case inr => simp [hr] at h
  case sniff  => rfl
  case divert => rfl

-- A submitted record is that of a packet which has come past the checks.
theorem record_eq_some {record : PacketBuffer}
    (h : (processPacket env cfg t skb direction).record = some record) :
    ∃ flags pkt sniff, gate env cfg skb direction = some (flags, pkt) ∧
      record = recordOf env cfg skb pkt direction (flags ||| flagIf sniff pktSniffed) := by
  cases hg : gate env cfg skb direction
  case none => simp [(processPacket_of_gate_none hg).right] at h
  case some res =>
    obtain ⟨flags, pkt⟩ := res
    rw [processPacket_of_gate hg, judge] at h
    cases hs : select t pkt direction
    case none => simp [hs, Outcome.pass] at h
    case some mm =>
      have hl : 0 < skb.len := by
        have := gate_packet hg
        omega
      have ha : Acted env cfg skb pkt direction flags mm _ := act_acted hl
      rw [hs] at h
      dsimp only at h
      generalize act env cfg skb pkt direction flags mm = out at h ha
      cases ha <;> cases h
      case sniff  => exact ⟨flags, pkt, true, rfl, rfl⟩
      case divert => exact ⟨flags, pkt, false, rfl, by simp [flagIf]⟩

-- Rules without conditions.
def catchAll (action : BitVec 16) : Tables where
  v4    := [{ FilterRule.v4Zero with matchMask := matchEnabled ||| action }]
  v6    := [{ FilterRule.v6Zero with matchMask := matchEnabled ||| action }]
  trie4 := fun _ => none
  trie6 := fun _ => none

theorem select_catchAll_sniff :
    select (catchAll matchSniff) pkt direction = some (matchEnabled ||| matchSniff) := by
  have hd : (matchEnabled ||| matchSniff) &&& ~~~matchDrop = matchEnabled ||| matchSniff := by decide
  have hz : matchEnabled ≠ 0#16 := by decide
  cases hf : pkt.fragment <;> cases hv : pkt.ver
  case true.v4 | true.v6 => simp [select, hf, hv, matchFragment, firstMask, catchAll, hd]
  case false.v4 =>
    simp [select, hf, hv, scan, catchAll, scanTable, matchesRuleIpv4, matchesRule, matchesCommon,
      Flags.clause, FilterRule.v4Zero, RuleCommon.zero, maxRules, hz]
  case false.v6 =>
    simp [select, hf, hv, scan, catchAll, scanTable, matchesRuleIpv6, matchesRule, matchesCommon,
      Flags.clause, FilterRule.v6Zero, RuleCommon.zero, maxRules, hz]

def openConfig : DivertConfig where
  priority           := 0
  snaplen            := 0
  loopPreventionMark := 0
  loIfindex          := 0
  flags              := 0
  heartbeatNs        := 0
  heartbeatTimeoutNs := 0

def okEnv : Env where
  now       := 0
  stamp     := 0
  pullOk    := true
  reserveOk := true
  fibLookup := fun _ => 4

-- A frame sent by this host, linear and without marks.
def sentSkb (frame : Bytes) : Skb where
  bytes          := frame
  headLen        := frame.length
  head_le        := Nat.le_refl _
  ifindex        := 1
  ingressIfindex := 0
  mark           := 0
  priority       := 0
  gsoSize        := 0
  gsoSegs        := 0

theorem pulled_sentSkb : (sentSkb frame).pulled = frame := by
  rw [Skb.pulled]
  exact List.take_of_length_le (by simp only [sentSkb]; omega)

theorem gate_sentSkb (h : parsePacket frame = some pkt) :
    gate okEnv openConfig (sentSkb frame) .outbound =
      some (flagIf pkt.fragment pktFragment, { pkt with isLo := false }) := by
  have ha : Flags.has openConfig.flags cfgShutdown = false ∧
      ownerGone openConfig okEnv.now = false := by decide
  have hm : checkMark openConfig (sentSkb frame).mark = some 0 := by
    change checkMark openConfig 0 = some 0
    decide
  have hl : isLo openConfig (sentSkb frame) = false := rfl
  have hp : checkPlace openConfig (sentSkb frame) .outbound = some 0 := by
    simp [checkPlace, forwarded, hl]
    simp [sentSkb, openConfig, flagIf]
  simp only [gate, ha, hm, hp, hl, pulled_sentSkb, h, skipped]
  simp [okEnv]

-- A frame that is not IP is let through by every handle, unless its first bytes happen to look like
-- an IP header.
theorem processPacket_nonIp (frame : Bytes) (hl : 14 ≤ frame.length)
    (ht : isIpType (frame.be16 12) = false) (hv : isVlanType (frame.be16 12) = false) :
    (∀ env cfg t skb direction, skb.bytes = frame →
      (processPacket env cfg t skb direction).act = .unspec ∧
      (processPacket env cfg t skb direction).record = none) ↔ ¬MistakenForIp frame := by
  constructor
  case mp =>
    intro h hm
    obtain ⟨pkt, hp⟩ := Option.isSome_iff_exists.mp <| (parsePacket_isSome_of_nonIp ht hv).mpr hm
    have hr := (h okEnv openConfig (catchAll matchSniff) (sentSkb frame) .outbound rfl).right
    rw [processPacket_of_gate (gate_sentSkb hp), judge, select_catchAll_sniff] at hr
    have hlen : 0 < (sentSkb frame).len := by
      simp only [Skb.len, sentSkb]
      omega
    exact Option.ne_none_iff_isSome.mpr
      (act_record_isSome hlen (by decide) (.inr (by decide)) rfl) hr
  case mpr =>
    intro hn env cfg t skb direction hb
    cases hg : gate env cfg skb direction
    case none => exact processPacket_of_gate_none hg
    case some res =>
      obtain ⟨_, _, pkt, _, _, hk, _⟩ := gate_eq_some hg
      have hlen : skb.len = frame.length := congrArg List.length hb
      have hmin : min frame.length 128 ≤ max skb.headLen (min skb.len 128) := by omega
      rw [Skb.pulled, hb] at hk
      have hbe : Bytes.be16 (frame.take (max skb.headLen (min skb.len 128))) 12 = frame.be16 12 :=
        Bytes.be16_take (by omega)
      have := (parsePacket_isSome_of_nonIp (hbe ▸ ht) (hbe ▸ hv)).mp (by simp [hk])
      exact absurd (this.of_take hmin) hn

-- An ARP request for 10.0.0.1 from 00:00:5e:00:01:01 to the given address.
def arpFrame (dst : Bytes) : Bytes :=
  dst ++ [0, 0, 0x5E, 0, 1, 1, 0x08, 0x06, 0, 1, 8, 0, 6, 4, 0, 1] ++
    [0, 0, 0x5E, 0, 1, 1, 10, 0, 0, 2, 0, 0, 0, 0, 0, 0, 10, 0, 0, 1]

theorem processPacket_nonIp_broadcast : ¬MistakenForIp (arpFrame (.replicate 6 0xFF)) ∧
    (processPacket okEnv openConfig (catchAll 0) (sentSkb (arpFrame (.replicate 6 0xFF)))
      .inbound).act = .unspec :=
  ⟨by decide, ((processPacket_nonIp _ (by decide) (by decide) (by decide)).mpr (by decide)
    _ _ _ (sentSkb (arpFrame (.replicate 6 0xFF))) _ rfl).left⟩

-- The destination address 46:00:00:00:00:01 is read as the start of an IPv4 header with options.
theorem processPacket_nonIp_stolen :
    let frame := arpFrame [0x46, 0, 0, 0, 0, 1]
    14 ≤ frame.length ∧ frame.be16 12 = 0x0806 ∧
    (processPacket okEnv openConfig (catchAll 0) (sentSkb frame) .inbound).act = .stolen := by
  decide

end Kernel
