import EbpfDivert.Prefilter.Walk
import EbpfDivert.Prefilter.Encode

open Wd (Insn)
open Shared

namespace Prefilter

-- The rules lowered from a filter. The tables of `struct pf_result` are filled up with zeros.
structure PfResult where
  v4    : List (FilterRule (BitVec 32))
  v6    : List (FilterRule Bytes)
  exact : Bool
deriving DecidableEq

def PfResult.empty : PfResult where
  v4    := []
  v6    := []
  exact := true

-- Too complex for the kernel tables: capture everything, filter in user space.
def PfResult.matchAll : PfResult where
  v4    := [{ FilterRule.v4Zero with matchMask := matchEnabled }]
  v6    := [{ FilterRule.v6Zero with matchMask := matchEnabled }]
  exact := false

def PfResult.addV4 (out : PfResult) (c : Cube) : Option PfResult :=
  if c.ver = some .v6 then some out
  else if out.v4.length = maxRules then none
  else some { out with v4 := out.v4 ++ [(emitV4 c).1], exact := out.exact && (emitV4 c).2 }

def PfResult.addV6 (out : PfResult) (c : Cube) : Option PfResult :=
  if c.ver = some .v4 then some out
  else if out.v6.length = maxRules then none
  else some { out with v6 := out.v6 ++ [(emitV6 c).1], exact := out.exact && (emitV6 c).2 }

-- None if a table overflows.
def pfEmitRules : List Cube → PfResult → Option PfResult
  | [],      out => some out
  | c :: cs, out => do
    let out ← PfResult.addV4 { out with exact := out.exact && c.exact } c
    let out ← out.addV6 c
    pfEmitRules cs out

section Emit

variable {out out' : PfResult} {c : Cube} {cs : List Cube}

theorem PfResult.addV4_cases (h : out.addV4 c = some out') :
    (c.ver = some .v6 ∧ out' = out) ∨ (c.ver ≠ some .v6 ∧ out.v4.length ≠ maxRules ∧
      out' = { out with v4 := out.v4 ++ [(emitV4 c).1], exact := out.exact && (emitV4 c).2 }) := by
  rw [addV4] at h
  split_ifs at h with hv hl
  case pos => exact .inl ⟨hv, (Option.some.inj h).symm⟩
  case neg => exact .inr ⟨hv, hl, (Option.some.inj h).symm⟩

theorem PfResult.addV6_cases (h : out.addV6 c = some out') :
    (c.ver = some .v4 ∧ out' = out) ∨ (c.ver ≠ some .v4 ∧ out.v6.length ≠ maxRules ∧
      out' = { out with v6 := out.v6 ++ [(emitV6 c).1], exact := out.exact && (emitV6 c).2 }) := by
  rw [addV6] at h
  split_ifs at h with hv hl
  case pos => exact .inl ⟨hv, (Option.some.inj h).symm⟩
  case neg => exact .inr ⟨hv, hl, (Option.some.inj h).symm⟩

-- What does not depend on `exact` and is kept by adding one rule holds of the tables at the end.
theorem pfEmitRules_invariant {P : PfResult → Prop} (h : pfEmitRules cs out = some out') (h₀ : P out)
    (exact : ∀ {out b}, P out → P { out with exact := b })
    (addV4 : ∀ {out out' c}, P out → out.addV4 c = some out' → P out')
    (addV6 : ∀ {out out' c}, P out → out.addV6 c = some out' → P out') : P out' := by
  induction cs generalizing out
  case nil => exact Option.some.inj h ▸ h₀
  case cons c cs ih =>
    obtain ⟨out₁, h₁, h⟩ := Option.bind_eq_some_iff.mp h
    obtain ⟨out₂, h₂, h⟩ := Option.bind_eq_some_iff.mp h
    exact ih h (addV6 (addV4 (exact h₀) h₁) h₂)

end Emit

-- The lowering of an object. Allocation is taken to succeed.
def pfLowerObject (object : List Insn) : PfResult :=
  let ctx := pfWalkAll object false
  if ctx.overflow then .matchAll
  else (pfEmitRules ctx.cubes .empty).getD .matchAll

-- None for `-EINVAL`.
def pfLower (f : Wd.Filter) : Option PfResult :=
  if f.layer = .network ∨ f.layer = .networkForward then some (pfLowerObject f.object) else none

-- Parsed packet fields, as the kernel program sees them.
structure PfPkt where
  ver       : IpVer
  src       : Words
  dst       : Words
  sport     : BitVec 16   -- tcp/udp ports, icmp type/code
  dport     : BitVec 16
  proto     : BitVec 8
  direction : Dir
  loopback  : Bool
  ttl       : BitVec 8
  tcpFlags  : BitVec 8

def clause (r : RuleCommon) (bit : BitVec 16) (cond : Bool) : Bool :=
  Flags.clause r.matchMask r.invertMask bit cond

def pfMatchCommon (r : RuleCommon) (p : PfPkt) : Bool :=
  clause r matchSrcPort (r.srcPortStart ≤ p.sport ∧ p.sport ≤ r.srcPortEnd) &&
  clause r matchDstPort (r.dstPortStart ≤ p.dport ∧ p.dport ≤ r.dstPortEnd) &&
  clause r matchProto (p.proto == r.proto) &&
  clause r matchDirection (p.direction.code == r.direction) &&
  clause r matchTtl (p.ttl == r.ttl) &&
  clause r matchTcpFlags (p.tcpFlags &&& r.tcpFlagsMask == r.tcpFlags) &&
  !(Flags.has r.matchMask matchLoopback && boolCode p.loopback != r.loopback)

def pfMatchRule {α : Type} (eq : α → α → α → Bool) (src dst : α) (p : PfPkt) (r : FilterRule α) :
    Bool :=
  Flags.has r.matchMask matchEnabled && !Flags.has r.matchMask matchFalse &&
  clause r.toRuleCommon matchSrcIp (eq src r.srcMask r.srcIp) &&
  clause r.toRuleCommon matchDstIp (eq dst r.dstMask r.dstIp) &&
  pfMatchCommon r.toRuleCommon p

def maskedEq4 (a mask ip : BitVec 32) : Bool :=
  a &&& mask == ip &&& mask

def maskedEq6 (a mask ip : Bytes) : Bool :=
  (List.range 16).all fun j => a.byte j &&& mask.byte j == ip.byte j &&& mask.byte j

def pfMatch (res : PfResult) (p : PfPkt) : Bool :=
  match p.ver with
  | .v4 => res.v4.any (pfMatchRule maskedEq4 (p.src.word 0) (p.dst.word 0) p)
  | .v6 => res.v6.any (pfMatchRule maskedEq6 p.src.toNet16 p.dst.toNet16 p)

end Prefilter
