import EbpfDivert.Kernel.Match

open Shared

-- What the inversion of a field does to a rule.
namespace Kernel

-- The fields that a rule can compare.
inductive RuleField
  | srcIp
  | dstIp
  | srcPort
  | dstPort
  | proto
  | direction
  | loopback
  | ttl
  | tcpFlags
deriving DecidableEq

def RuleField.index : RuleField → Nat
  | srcIp     => 0
  | dstIp     => 1
  | srcPort   => 2
  | dstPort   => 3
  | proto     => 4
  | direction => 5
  | loopback  => 6
  | ttl       => 11
  | tcpFlags  => 12

def RuleField.bit (f : RuleField) : BitVec 16 :=
  Flags.bit 16 f.index

section

variable {α : Type} (eq : α → α → α → Bool) (trie : α → Option (BitVec 32)) (ver : IpVer)
variable (src dst : α) (pkt : ParsedPacket) (dir : Dir) (r : FilterRule α)

-- What a field compares, before any inversion.
def fieldCond : RuleField → Bool
  | .srcIp     => addrCond eq trie r.matchMask matchSrcIp src r.srcMask r.srcIp
  | .dstIp     => addrCond eq trie r.matchMask matchDstIp dst r.dstMask r.dstIp
  | .srcPort   => r.srcPortStart ≤ pkt.srcPort ∧ pkt.srcPort ≤ r.srcPortEnd
  | .dstPort   => r.dstPortStart ≤ pkt.dstPort ∧ pkt.dstPort ≤ r.dstPortEnd
  | .proto     => pkt.proto == r.proto
  | .direction => dir.code == r.direction
  | .loopback  => (if pkt.isLo then 1 else 0) == r.loopback
  | .ttl       => pkt.ttl == r.ttl
  | .tcpFlags  => pkt.tcpFlags &&& r.tcpFlagsMask == r.tcpFlags

-- A field is satisfied if it is not compared, or if the comparison comes out as the rule has it in
-- its mask of inverted fields.
def Satisfied (f : RuleField) : Prop :=
  Flags.clause r.matchMask r.invertMask f.bit (fieldCond eq trie src dst pkt dir r f)

end

-- The rules that can match anything.
def Live (r : RuleCommon) : Prop :=
  Flags.has r.matchMask matchEnabled ∧ ¬Flags.has r.matchMask matchFalse

def flipInvert {α : Type} (r : FilterRule α) (f : RuleField) : FilterRule α :=
  { r with invertMask := r.invertMask ^^^ f.bit }

-- The loopback field is compared without regard to the inverted fields: flipping its bit changes
-- nothing, and where the bit is set the field is compared the wrong way round.
structure Invertible (r : RuleCommon) (f : RuleField) : Prop where
  live : Live r
  ne   : f ≠ .loopback
  lo   : ¬(Flags.has r.matchMask matchLoopback ∧ Flags.has r.invertMask matchLoopback)

section

variable {α : Type} {eq : α → α → α → Bool} {trie : α → Option (BitVec 32)} {ver : IpVer}
variable {src dst : α} {pkt : ParsedPacket} {dir : Dir} {r : FilterRule α} {f g : RuleField}

theorem RuleField.index_lt : f.index < 16 := by
  cases f <;> decide

theorem RuleField.index_inj : f.index = g.index ↔ f = g := by
  cases f <;> cases g <;> decide

-- The fields other than the loopback field are conditions with an inversion.
theorem matchesRule_iff : matchesRule eq trie ver src dst pkt dir r ↔
    Live r.toRuleCommon ∧ pkt.ver = ver ∧
    (∀ g, g ≠ .loopback → Satisfied eq trie src dst pkt dir r g) ∧
    (Flags.has r.matchMask matchLoopback → fieldCond eq trie src dst pkt dir r .loopback) := by
  have hl : !(Flags.has r.matchMask matchLoopback && (if pkt.isLo then 1 else 0) != r.loopback) ↔
      (Flags.has r.matchMask matchLoopback → fieldCond eq trie src dst pkt dir r .loopback) := by
    simp only [fieldCond, bne]
    cases Flags.has r.matchMask matchLoopback <;> simp
  simp only [matchesRule, matchesCommon, Bool.and_eq_true, Bool.not_eq_true', decide_eq_true_eq, hl,
    Live, Bool.not_eq_true]
  constructor
  case mp =>
    rintro ⟨⟨⟨⟨⟨he, hn⟩, hv⟩, h₀⟩, h₁⟩, ⟨⟨⟨⟨⟨⟨h₂, h₃⟩, h₄⟩, h₅⟩, h₁₁⟩, h₁₂⟩, h₆⟩⟩
    refine ⟨⟨he, hn⟩, hv, fun g hg => ?_, h₆⟩
    cases g
    case loopback => contradiction
    all_goals assumption
  case mpr =>
    rintro ⟨⟨he, hn⟩, hv, hs, h₆⟩
    exact ⟨⟨⟨⟨⟨he, hn⟩, hv⟩, hs .srcIp nofun⟩, hs .dstIp nofun⟩, ⟨⟨⟨⟨⟨⟨hs .srcPort nofun,
      hs .dstPort nofun⟩, hs .proto nofun⟩, hs .direction nofun⟩, hs .ttl nofun⟩,
      hs .tcpFlags nofun⟩, h₆⟩⟩

@[simp]
theorem matchMask_flipInvert : (flipInvert r f).matchMask = r.matchMask := rfl

theorem live_flipInvert : Live (flipInvert r f).toRuleCommon ↔ Live r.toRuleCommon := Iff.rfl

theorem fieldCond_flipInvert : fieldCond eq trie src dst pkt dir (flipInvert r f) g =
    fieldCond eq trie src dst pkt dir r g := by
  cases g <;> rfl

theorem has_flipInvert :
    Flags.has (flipInvert r f).invertMask g.bit = (Flags.has r.invertMask g.bit ^^ decide (g = f)) := by
  simp only [flipInvert, RuleField.bit, Flags.has_xor_bit f.index_lt g.index_lt, RuleField.index_inj]

theorem satisfied_flipInvert (h : g ≠ f) : Satisfied eq trie src dst pkt dir (flipInvert r f) g ↔
    Satisfied eq trie src dst pkt dir r g := by
  rw [Satisfied, Satisfied, fieldCond_flipInvert, Flags.clause_iff, Flags.clause_iff, has_flipInvert]
  simp [h]

theorem satisfied_flipInvert_self (h : Flags.has r.matchMask f.bit) :
    Satisfied eq trie src dst pkt dir (flipInvert r f) f ↔ ¬Satisfied eq trie src dst pkt dir r f := by
  rw [Satisfied, Satisfied, fieldCond_flipInvert, Flags.clause_iff, Flags.clause_iff, has_flipInvert]
  cases fieldCond eq trie src dst pkt dir r f <;> cases Flags.has r.invertMask f.bit <;>
    simp [h]

-- Whether a rule matches if all other fields are satisfied.
theorem matchesRule_iff_of_others (hv : pkt.ver = ver)
    (hs : ∀ g, g ≠ f → Satisfied eq trie src dst pkt dir r g) :
    matchesRule eq trie ver src dst pkt dir r ↔
    Live r.toRuleCommon ∧ (f ≠ .loopback → Satisfied eq trie src dst pkt dir r f) ∧
    (Flags.has r.matchMask matchLoopback → fieldCond eq trie src dst pkt dir r .loopback) := by
  have hg : (∀ g, g ≠ .loopback → Satisfied eq trie src dst pkt dir r g) ↔
      (f ≠ .loopback → Satisfied eq trie src dst pkt dir r f) := by
    refine ⟨fun h => h f, fun h g hg => ?_⟩
    by_cases he : g = f
    case pos => exact he ▸ h (he ▸ hg)
    case neg => exact hs g he
  rw [matchesRule_iff, hg]
  simp only [hv, true_and]

theorem matchesRule_ne_iff (hv : pkt.ver = ver) (hf : Flags.has r.matchMask f.bit)
    (hs : ∀ g, g ≠ f → Satisfied eq trie src dst pkt dir r g) :
    matchesRule eq trie ver src dst pkt dir r ≠
      matchesRule eq trie ver src dst pkt dir (flipInvert r f) ↔ Invertible r.toRuleCommon f := by
  have hs' : ∀ g, g ≠ f → Satisfied eq trie src dst pkt dir (flipInvert r f) g :=
    fun g hg => (satisfied_flipInvert hg).mpr (hs g hg)
  rw [ne_eq, Bool.eq_iff_iff, matchesRule_iff_of_others hv hs, matchesRule_iff_of_others hv hs',
    satisfied_flipInvert_self hf, fieldCond_flipInvert, live_flipInvert, matchMask_flipInvert]
  by_cases hl : f = .loopback
  case pos =>
    have hi : ¬Invertible r.toRuleCommon f := fun h => h.ne hl
    simp only [hl, ne_eq, not_true, false_imp_iff, iff_self, false_iff] at hi ⊢
    exact hi
  case neg =>
    -- The loopback field is satisfied, and it is compared without its inversion.
    have ho := Flags.clause_iff.mp (hs .loopback (Ne.symm hl))
    have hi : Invertible r.toRuleCommon f ↔ Live r.toRuleCommon ∧
        ¬(Flags.has r.matchMask matchLoopback ∧ Flags.has r.invertMask matchLoopback) :=
      ⟨fun h => ⟨h.live, h.lo⟩, fun h => ⟨h.1, hl, h.2⟩⟩
    rw [hi]
    simp only [hl, ne_eq, not_false_eq_true, forall_const]
    change Flags.has r.matchMask matchLoopback → (_ ↔ Flags.has r.invertMask matchLoopback = false) at ho
    grind

end

section

variable (t : Tables) (pkt : ParsedPacket) (dir : Dir)

def SatisfiedIpv4 (r : FilterRule (BitVec 32)) (f : RuleField) : Prop :=
  Satisfied (fun a mask ip => a &&& mask == ip &&& mask) t.trie4 pkt.srcIp pkt.dstIp pkt dir r f

def SatisfiedIpv6 (r : FilterRule Bytes) (f : RuleField) : Prop :=
  Satisfied maskedEq64 t.trie6 pkt.srcIp6 pkt.dstIp6 pkt dir r f

end

-- Exactly one of a rule and the rule with one field inverted matches a packet that satisfies all
-- other fields, unless it comes to an inverted loopback field.
theorem invert_negates_iff (t : Tables) (pkt : ParsedPacket) (dir : Dir) (f : RuleField) :
    (∀ r, pkt.ver = .v4 → Flags.has r.matchMask f.bit →
      (∀ g, g ≠ f → SatisfiedIpv4 t pkt dir r g) →
      (matchesRuleIpv4 t pkt dir r ≠ matchesRuleIpv4 t pkt dir (flipInvert r f) ↔
        Invertible r.toRuleCommon f)) ∧
    (∀ r, pkt.ver = .v6 → Flags.has r.matchMask f.bit →
      (∀ g, g ≠ f → SatisfiedIpv6 t pkt dir r g) →
      (matchesRuleIpv6 t pkt dir r ≠ matchesRuleIpv6 t pkt dir (flipInvert r f) ↔
        Invertible r.toRuleCommon f)) :=
  ⟨fun _ => matchesRule_ne_iff, fun _ => matchesRule_ne_iff⟩

section

def noTables : Tables where
  v4      := []
  v6      := []
  trie4 _ := none
  trie6 _ := none

-- A TCP packet on the loopback interface.
def loPkt (ver : IpVer) : ParsedPacket where
  ver      := ver
  srcIp    := 0x7F000001
  dstIp    := 0x7F000001
  srcIp6   := .replicate 15 0 ++ [1]
  dstIp6   := .replicate 15 0 ++ [1]
  srcPort  := 40000
  dstPort  := 80
  l2Len    := 14
  proto    := 6
  ttl      := 64
  tcpFlags := 2
  fragment := false
  isLo     := true

def ttlRule : FilterRule (BitVec 32) :=
  { FilterRule.v4Zero with matchMask := matchEnabled ||| matchTtl, ttl := 64 }

def loRule : RuleCommon :=
  { RuleCommon.zero with matchMask := matchEnabled ||| matchLoopback, loopback := 1 }

theorem invert_negates_ttl :
    matchesRuleIpv4 noTables (loPkt .v4) .inbound ttlRule ≠
    matchesRuleIpv4 noTables (loPkt .v4) .inbound (flipInvert ttlRule .ttl) :=
  ((invert_negates_iff noTables (loPkt .v4) .inbound .ttl).1 ttlRule rfl rfl
    fun g hg => by cases g <;> first | exact absurd rfl hg | exact rfl).mpr
    ⟨⟨by decide, by decide⟩, nofun, by decide⟩

-- A rule for packets on the loopback interface matches them whether the field is inverted or not.
theorem invert_ignores_loopback :
    let r₄ := { FilterRule.v4Zero with toRuleCommon := loRule }
    let r₆ := { FilterRule.v6Zero with toRuleCommon := loRule }
    Flags.has loRule.matchMask RuleField.loopback.bit ∧
    (∀ g, g ≠ .loopback → SatisfiedIpv4 noTables (loPkt .v4) .inbound r₄ g) ∧
    matchesRuleIpv4 noTables (loPkt .v4) .inbound r₄ ∧
    matchesRuleIpv4 noTables (loPkt .v4) .inbound (flipInvert r₄ .loopback) ∧
    (∀ g, g ≠ .loopback → SatisfiedIpv6 noTables (loPkt .v6) .inbound r₆ g) ∧
    matchesRuleIpv6 noTables (loPkt .v6) .inbound r₆ ∧
    matchesRuleIpv6 noTables (loPkt .v6) .inbound (flipInvert r₆ .loopback) := by
  refine ⟨by decide, fun g hg => ?_, by decide, by decide, fun g hg => ?_, by decide, by decide⟩
  all_goals cases g <;> first | exact absurd rfl hg | exact rfl

end

end Kernel
