import EbpfDivert.Handle.Theorems.Fate

open Shared Prefilter Kernel

namespace Handle

variable {α : Type} {r : FilterRule α} {res : PfResult} {pkt : ParsedPacket}
variable {direction : Dir} {p : PfPkt}

-- The fields of a parsed packet as the reference matcher gets them.
structure SameFields (pkt : ParsedPacket) (direction : Dir) (p : PfPkt) : Prop where
  ver       : pkt.ver = p.ver
  src4      : p.ver = .v4 → pkt.srcIp = p.src.word 0
  dst4      : p.ver = .v4 → pkt.dstIp = p.dst.word 0
  src6      : p.ver = .v6 → pkt.srcIp6 = p.src.toNet16
  dst6      : p.ver = .v6 → pkt.dstIp6 = p.dst.toNet16
  sport     : pkt.srcPort = p.sport
  dport     : pkt.dstPort = p.dport
  proto     : pkt.proto = p.proto
  ttl       : pkt.ttl = p.ttl
  tcpFlags  : pkt.tcpFlags = p.tcpFlags
  direction : direction = p.direction
  loopback  : pkt.isLo = p.loopback

theorem maskedEq64_eq {a mask ip : Bytes} : maskedEq64 a mask ip = maskedEq6 a mask ip := by
  rw [Bool.eq_iff_iff, maskedEq64, maskedEq6, Bool.and_eq_true, beq_iff_eq, beq_iff_eq,
    Bytes.and_be64_eq_iff, Bytes.and_be64_eq_iff]
  simp only [List.all_eq_true, List.mem_range, beq_iff_eq]
  constructor
  case mp =>
    rintro ⟨h₀, h₈⟩ j hj
    by_cases h : j < 8
    case pos => simpa using h₀ j h
    case neg => simpa [show 8 + (j - 8) = j by omega] using h₈ (j - 8) (by omega)
  case mpr =>
    intro h
    exact ⟨fun j hj => by simpa using h j (by omega), fun j hj => h (8 + j) (by omega)⟩

theorem matchesCommon_eq {r : RuleCommon} (hp : SameFields pkt direction p) :
    matchesCommon r pkt direction = pfMatchCommon r p := by
  simp only [matchesCommon, pfMatchCommon, clause, hp.sport, hp.dport, hp.proto, hp.ttl, hp.tcpFlags,
    hp.direction, hp.loopback]
  rfl

theorem matchesRule_eq {eq : α → α → α → Bool} {trie : α → Option (BitVec 32)} {src dst : α}
    (hp : SameFields pkt direction p) (hr : r.Bare) :
    matchesRule eq trie p.ver src dst pkt direction r = pfMatchRule eq src dst p r := by
  simp only [matchesRule, pfMatchRule, addrCond, hr.noLpm, matchesCommon_eq hp, hp.ver, clause]
  simp

theorem hit_isSome_eq (hb : res.Bare) (hp : SameFields pkt direction p) :
    (hit res pkt direction).isSome = pfMatch res p := by
  cases hv : p.ver <;> simp only [hit, pfMatch, hv, hp.ver, Option.isSome_map, List.isSome_find?]
  case v4 =>
    rw [Bool.eq_iff_iff, List.any_eq_true, List.any_eq_true]
    refine exists_congr fun r => and_congr_right fun hr => ?_
    rw [matchesRuleIpv4, ← hv, matchesRule_eq hp (hb.v4 r hr), hp.src4 hv, hp.dst4 hv]
    rfl
  case v6 =>
    rw [Bool.eq_iff_iff, List.any_eq_true, List.any_eq_true]
    refine exists_congr fun r => and_congr_right fun hr => ?_
    rw [matchesRuleIpv6, ← hv, matchesRule_eq hp (hb.v6 r hr), hp.src6 hv, hp.dst6 hv]
    simp only [pfMatchRule, maskedEq64_eq]

-- The scan of the tables that `load_rules` builds finds a rule whenever the reference matcher does.
theorem scan_isSome_iff {h h' : Handle} {t : Tables} (hload : h.loadRules = some (t, h'))
    (hf : pfLower h.filter = some res) (hp : SameFields pkt direction p) :
    (scan t pkt direction).isSome ↔ pfMatch res p := by
  obtain ⟨_, hres, rfl, rfl⟩ := loadRules_eq_some hload
  cases hf.symm.trans hres
  have hb := pfLower_bare hf
  rw [scan_tables hb action_isAction, Option.isSome_map, hit_isSome_eq hb hp]

-- The fields of `synFrame`.
def synFields : PfPkt where
  ver       := .v4
  src       := .mapped 0x0A000001
  dst       := .mapped 0xC0000201
  sport     := 0xC000
  dport     := 443
  proto     := 6
  direction := .outbound
  loopback  := false
  ttl       := 64
  tcpFlags  := 0x02

theorem scan_isSome_iff_syn : ∃ t h' res pkt, synHandle.loadRules = some (t, h') ∧
    pfLower synHandle.filter = some res ∧ parsePacket synFrame = some pkt ∧
    SameFields pkt .outbound synFields ∧ pfMatch res synFields ∧
    (scan t pkt .outbound).isSome := by
  have hl : synHandle.loadRules = some _ := rfl
  have hf : pfLower synHandle.filter = some _ := rfl
  have hpkt : parsePacket synFrame = some _ := rfl
  have hp : SameFields ((parsePacket synFrame).get rfl) .outbound synFields :=
    ⟨rfl, fun _ => rfl, fun _ => rfl, nofun, nofun, rfl, rfl, rfl, rfl, rfl, rfl, rfl⟩
  exact ⟨_, _, _, _, hl, hf, hpkt, hp, rfl, (scan_isSome_iff hl hf hp).mpr rfl⟩

end Handle
