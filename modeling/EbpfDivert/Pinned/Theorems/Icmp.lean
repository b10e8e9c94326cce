import EbpfDivert.Pinned.Theorems.Rules
import EbpfDivert.Kernel.Theorems.Invert
import EbpfDivert.Kernel.Theorems.Transport

open Shared CString
open Kernel (ParsedPacket Tables TransportAt IsIcmp Complete parsePacket icmpNumber)
open Kernel (matchesRule matchesRuleIpv4 matchesRuleIpv6 noTables)

-- What the rules for ICMP messages match.
namespace Pinned

variable {α : Type} {fam : Family α} {libc : Libc} {type code : BitVec 8} {action : CString}
variable {act : BitVec 16} {opt : RuleOpt} {ver : IpVer}

-- A type and a code as the user writes them.
def typeCode (type code : BitVec 8) : CString :=
  Nat.toDigits 10 type.toNat ++ '/' :: Nat.toDigits 10 code.toNat

theorem length_typeCode : (typeCode type code).length ≤ 31 := by
  have h (b : BitVec 8) : (Nat.toDigits 10 b.toNat).length ≤ 3 :=
    (Nat.length_toDigits_le_iff (by decide) (by decide)).mpr (by omega)
  have := h type
  have := h code
  simp only [typeCode, List.length_append, List.length_cons]
  omega

theorem cut_typeCode : (cut '/' (typeCode type code)).2 = some (Nat.toDigits 10 code.toNat) := by
  have hd : ∀ c ∈ Nat.toDigits 10 type.toNat, decide (c ≠ '/') := by
    intro c hc
    have hc : c.isDigit := Nat.isDigit_of_mem_toDigits (by decide) (by decide) hc
    rw [decide_eq_true_eq]
    rintro rfl
    exact absurd hc (by decide)
  simp only [cut, typeCode]
  rw [List.dropWhile_append_of_pos hd]
  rfl

-- The text is read back.
theorem parseIcmp_typeCode :
    parseIcmp (typeCode type code) = (type.setWidth 16, code.setWidth 16) := by
  have ht : atoi (typeCode type code) = type.toNat := by
    refine atoi_toDigits (fun c hc => ?_) (by omega)
    cases hc
    decide
  have hc : atoi (Nat.toDigits 10 code.toNat) = code.toNat := by
    have h := atoi_toDigits (s := []) (n := code.toNat) (by simp) (by omega)
    rwa [List.append_nil] at h
  have hw (b : BitVec 8) : BitVec.ofInt 16 b.toNat = b.setWidth 16 := by simp
  simp only [parseIcmp, copied, List.take_of_length_le length_typeCode, cut_typeCode,
    Option.elim_some, ht, hc, hw]

-- The rule for a type and a code.
def icmpRule (fam : Family α) (act : BitVec 16) (type code : BitVec 8) : FilterRule α :=
  { fam.zero with
    matchMask    := matchEnabled ||| matchProto ||| act ||| matchDstPort
    proto        := fam.icmp
    srcPortStart := type.setWidth 16
    srcPortEnd   := type.setWidth 16
    dstPortStart := code.setWidth 16
    dstPortEnd   := code.setWidth 16 }

theorem active_typeCode : isOptionActive (some (typeCode type code)) := by
  have hm : '/' ∈ typeCode type code := by simp [typeCode]
  have ha : typeCode type code ≠ "any".toList := by
    intro h
    simp [h] at hm
  have hn : typeCode type code ≠ [] := List.ne_nil_of_mem hm
  exact isOptionActive_some.mpr ⟨ha, hn⟩

-- The rule before the type and the code are put in.
def icmpHead (fam : Family α) (act : BitVec 16) : FilterRule α :=
  { enabledRule fam with matchMask := matchEnabled ||| matchProto ||| act, proto := fam.icmp }

theorem setDstPort_icmpHead : setDstPort fam (typeCode type code) (icmpHead fam act) =
    icmpRule fam act type code := by
  rw [setDstPort, if_pos (show (icmpHead fam act).proto = fam.icmp from rfl), parseIcmp_typeCode]
  rfl

theorem shortRule_icmp (hf : fam.Lawful) :
    shortRule fam fam.icmpName "any".toList (typeCode type code) action =
      .ok (icmpRule fam (actionMask action) type code) := by
  have hp : setAction action (setProto fam (· == ·) fam.icmpName (enabledRule fam)) =
      icmpHead fam (actionMask action) := by
    simp only [setAction, setProto, hf.short]
    rfl
  simp only [shortRule, unlessAny_of_ne (isOptionActive_some.mp hf.active).1,
    unlessAny_of_ne (isOptionActive_some.mp active_typeCode).1, unlessAny_any, hp]
  exact congrArg Except.ok setDstPort_icmpHead

-- The options of a rule for a type and a code, with nothing else that restricts the packets.
structure IcmpOpt (icmpName : CString) (type code : BitVec 8) (opt : RuleOpt) : Prop where
  proto        : opt.proto = some icmpName
  dstPortRange : opt.dstPortRange = some (typeCode type code)
  srcIpCidr    : isOptionActive opt.srcIpCidr = false
  dstIpCidr    : isOptionActive opt.dstIpCidr = false
  direction    : isOptionActive opt.direction = false
  loopback     : isOptionActive opt.loopback = false
  ttl          : isOptionActive opt.ttl = false
  tcpFlags     : isOptionActive opt.tcpFlags = false
  invertMask   : opt.invertMask = 0

theorem extendedRule_icmp (hf : fam.Lawful) (h : IcmpOpt fam.icmpName type code opt) :
    extendedRule fam opt = .ok (icmpRule fam (opt.action.elim 0 actionMask) type code) := by
  have hp : opt.action.elim id setAction (setProto fam sameUpToCase fam.icmpName (enabledRule fam)) =
      icmpHead fam (opt.action.elim 0 actionMask) := by
    cases opt.action
    all_goals
      simp only [Option.elim, id, setAction, setProto, hf.extended, icmpHead, enabledRule]
    simp
  have hs : addSrcPort fam opt.srcPortRange (icmpHead fam (opt.action.elim 0 actionMask)) =
      icmpHead fam (opt.action.elim 0 actionMask) := if_pos rfl
  simp only [extendedRule, h.proto, h.dstPortRange, whenActive_of_active hf.active, hp,
    whenActive_of_inactive h.srcIpCidr, whenActive_of_inactive h.dstIpCidr,
    whenActive_of_active active_typeCode, whenActive_of_inactive h.direction,
    whenActive_of_inactive h.loopback, whenActive_of_inactive h.ttl,
    whenActive_of_inactive h.tcpFlags, h.invertMask, id]
  change Except.ok { setDstPort fam _ (addSrcPort fam _ (icmpHead fam _)) with invertMask := 0 } = _
  rw [hs, setDstPort_icmpHead, icmpRule, hf.uninverted]

section Match

variable {eq : α → α → α → Bool} {trie : α → Option (BitVec 32)} {src dst : α}
variable {pkt : ParsedPacket} {direction : Dir}

-- Bits that say what happens to a packet and nothing about which one.
def OnlyAction (act : BitVec 16) : Prop :=
  ∀ i < 16, i ≠ 9 ∧ i ≠ 10 → Flags.has act (Flags.bit 16 i) = false

-- Of the ports only the destination is compared, so the type is not.
theorem matchesRule_icmpRule (hf : fam.Lawful) (ha : OnlyAction act) :
    matchesRule eq trie ver src dst pkt direction (icmpRule fam act type code) ↔
    pkt.ver = ver ∧ pkt.proto = fam.icmp ∧ pkt.dstPort = code.setWidth 16 := by
  have hle {x y : BitVec 16} : y ≤ x ∧ x ≤ y ↔ x = y := by
    constructor
    case mp  => exact fun h => BitVec.le_antisymm h.2 h.1
    case mpr =>
      rintro rfl
      exact ⟨BitVec.le_refl _, BitVec.le_refl _⟩
  rw [OnlyAction] at ha
  simpa [matchesRule, Kernel.matchesCommon, Flags.clause, icmpRule, hf.uninverted, ha, hle] using
    fun _ => and_comm

end Match

section Calls

variable {c : Call} {w : Write}

def icmpName : IpVer → CString
  | .v4 => "icmp".toList
  | .v6 => "icmpv6".toList

-- The calls that ask for a rule for a type and a code.
inductive IcmpCall (ver : IpVer) (type code : BitVec 8) : Call → Prop
  | add {env idx action} : IcmpCall ver type code
      (.add env idx (some (icmpName ver)) (some "any".toList) (some (typeCode type code)) (some action))
  | addExtended {env idx opt} (h : IcmpOpt (icmpName ver) type code opt) :
      IcmpCall ver type code (.addExtended env idx (some opt))

-- What they write.
inductive IcmpWrite (libc : Libc) (type code : BitVec 8) : IpVer → Write → Prop
  | v4 {i act} (ha : OnlyAction act) :
    IcmpWrite libc type code .v4 (.v4 i (icmpRule (ipv4 libc) act type code))
  | v6 {i act} (ha : OnlyAction act) :
    IcmpWrite libc type code .v6 (.v6 i (icmpRule (ipv6 libc) act type code))

theorem isIpv6Cidr_of_inactive {val : Option CString} (h : isOptionActive val = false) :
    isIpv6Cidr val = false := by
  cases val
  case none => rfl
  case some s =>
    have hs : s = "any".toList ∨ s = [] := by
      simpa [isOptionActive, or_iff_not_imp_left] using h
    rcases hs with rfl | rfl <;> decide

theorem onlyAction_elim {action : Option CString} : OnlyAction (action.elim 0 actionMask) := by
  intro i hi h
  cases action
  case none   => exact Flags.has_zero
  case some _ => exact has_actionMask hi h

theorem Added.icmp {isIpv6 : Bool}
    {build : {α : Type} → Family α → Except RuleError (FilterRule α)}
    (h : Added libc isIpv6 build w) (hv : isIpv6 = (ver == .v6)) (ha : OnlyAction act)
    (h4 : ver = .v4 → build (ipv4 libc) = .ok (icmpRule (ipv4 libc) act type code))
    (h6 : ver = .v6 → build (ipv6 libc) = .ok (icmpRule (ipv6 libc) act type code)) :
    IcmpWrite libc type code ver w := by
  cases ver
  case v4 =>
    rcases h with ⟨_, hr⟩ | ⟨hi, _⟩
    case v4 =>
      cases (h4 rfl).symm.trans hr
      exact .v4 ha
    case v6 => exact absurd (hv.symm.trans hi) (by decide)
  case v6 =>
    rcases h with ⟨hi, _⟩ | ⟨_, hr⟩
    case v4 => exact absurd (hv.symm.trans hi) (by decide)
    case v6 =>
      cases (h6 rfl).symm.trans hr
      exact .v6 ha

theorem IcmpCall.write (h : IcmpCall ver type code c) (hw : c.run libc = .ok w) :
    IcmpWrite libc type code ver w := by
  cases h
  case add env idx action =>
    have ha : OnlyAction (actionMask action) := fun _ => has_actionMask
    rw [Call.run, rulesAdd] at hw
    refine (addRule_added hw).icmp ?_ ha ?_ ?_
    case refine_1 => cases ver <;> decide
    case refine_2 =>
      rintro rfl
      exact shortRule_icmp ipv4_lawful
    case refine_3 =>
      rintro rfl
      exact shortRule_icmp ipv6_lawful
  case addExtended env idx opt h =>
    have ha : OnlyAction (opt.action.elim 0 actionMask) := onlyAction_elim
    rw [Call.run, rulesAddExtended] at hw
    refine (addRule_added hw).icmp ?_ ha ?_ ?_
    case refine_1 =>
      rw [isIpv6Cidr_of_inactive h.srcIpCidr, isIpv6Cidr_of_inactive h.dstIpCidr, h.proto]
      cases ver <;> decide
    case refine_2 =>
      rintro rfl
      exact extendedRule_icmp ipv4_lawful h
    case refine_3 =>
      rintro rfl
      exact extendedRule_icmp ipv6_lawful h

end Calls

section Match

variable {pkt : ParsedPacket} {direction : Dir} {data : Bytes} {t : Tables} {c : Call} {w : Write}
variable {lo : Bool}

def Write.Matches (t : Tables) (pkt : ParsedPacket) (direction : Dir) : Write → Prop
  | v4 _ rule => matchesRuleIpv4 t pkt direction rule
  | v6 _ rule => matchesRuleIpv6 t pkt direction rule

theorem IcmpWrite.matches_iff (h : IcmpWrite libc type code ver w) : w.Matches t pkt direction ↔
    pkt.ver = ver ∧ pkt.proto = icmpNumber ver ∧ pkt.dstPort = code.setWidth 16 := by
  rcases h with ha | ha
  case v4 => exact matchesRule_icmpRule ipv4_lawful ha
  case v6 => exact matchesRule_icmpRule ipv6_lawful ha

theorem setWidth_inj {x y : BitVec 8} : x.setWidth 16 = y.setWidth 16 ↔ x = y := by
  constructor
  case mp =>
    intro h
    simpa using congrArg (·.setWidth 8) h
  case mpr =>
    rintro rfl
    rfl

-- The messages with the code of the rule match, whatever their type.
theorem IcmpWrite.matches_iff_code (h : IcmpWrite libc type code ver w)
    (hk : parsePacket data = some pkt) (hf : pkt.fragment = false) (hc : Complete data) :
    w.Matches t { pkt with isLo := lo } direction ↔ ∃ type', IsIcmp data ver type' code := by
  rw [h.matches_iff]
  obtain ⟨off, ht, _, hd⟩ := Kernel.parsePacket_transport hk hf
  constructor
  case mp =>
    rintro ⟨rfl, hp, hd'⟩
    rw [hp] at ht hd
    rw [Kernel.readTransport_icmp ht hc] at hd
    exact ⟨_, off, ht, rfl, setWidth_inj.mp (hd.symm.trans hd')⟩
  case mpr =>
    rintro ⟨type', off', ht', _, rfl⟩
    obtain ⟨hv, hp, rfl⟩ := ht.unique ht'
    rw [hp, hv, Kernel.readTransport_icmp ht' hc] at hd
    exact ⟨hv, hp, hd⟩

end Match

section Echo

-- An ICMP message in an IPv4 packet, with an identifier and a sequence number of zero.
def icmpPacket (type code : BitVec 8) : Bytes :=
  [0x45, 0, 0, 28, 0, 0, 0, 0, 64, 1, 0, 0, 10, 0, 0, 1, 10, 0, 0, 2] ++
  [type, code, 0, 0, 0, 0, 0, 0]

def icmpPkt (type code : BitVec 8) : ParsedPacket where
  ver      := .v4
  srcIp    := 0x0A000001
  dstIp    := 0x0A000002
  srcIp6   := .replicate 16 0
  dstIp6   := .replicate 16 0
  srcPort  := type.setWidth 16
  dstPort  := code.setWidth 16
  l2Len    := 0
  proto    := 1
  ttl      := 64
  tcpFlags := 0
  fragment := false
  isLo     := false

theorem transportAt_icmpPacket : TransportAt (icmpPacket type code) .v4 1 20 := by
  have hl : Kernel.findL2 (icmpPacket type code) = some 0 := by
    simp [Kernel.findL2, Kernel.ethernetLen, Kernel.guessLen, icmpPacket, Bytes.be16, Bytes.byte,
      Kernel.isIpType, Kernel.isVlanType, Kernel.isIpVersion]
  have h₀ : (icmpPacket type code).byte 0 = 0x45 := rfl
  have h₉ : (icmpPacket type code).byte 9 = 1 := rfl
  simpa [h₀, h₉] using TransportAt.v4 hl (by rw [h₀]; rfl)

theorem complete_icmpPacket : Complete (icmpPacket type code) := by
  intro ver proto off h
  obtain ⟨rfl, rfl, rfl⟩ := transportAt_icmpPacket.unique h
  exact Nat.le_refl 28

-- Echo requests are to be dropped.
def dropEcho : Call :=
  .add allOk 0 (some "icmp".toList) (some "any".toList) (some "8/0".toList) (some "drop".toList)

def echoRule : FilterRule (BitVec 32) :=
  icmpRule (ipv4 noAddresses) matchDrop 8 0

end Echo

end Pinned
