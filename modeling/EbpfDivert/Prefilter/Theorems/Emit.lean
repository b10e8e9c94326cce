import EbpfDivert.Prefilter.Theorems.AddrCode
import EbpfDivert.Prefilter.Theorems.Cube

open Shared

namespace Prefilter

variable {p : PfPkt} {c : Cube}

theorem boolCode_inj {b b' : Bool} : boolCode b = boolCode b' ↔ b = b' := by
  cases b <;> cases b' <;> decide

theorem dirCode_iff : (c.dir.isSome → p.direction.code = c.dir.elim 0 Dir.code) ↔
    ∀ d ∈ c.dir, d = p.direction := by
  cases c.dir <;> simp [Dir.code_inj, eq_comm]

theorem tcpCode_iff : (c.tcp.mask ≠ 0 →
    p.tcpFlags &&& c.tcp.mask = if c.tcp.mask = 0 then 0 else c.tcp.flags) ↔
    c.tcp.Mem p.tcpFlags := by
  by_cases hm : c.tcp.mask = 0
  case pos =>
    have hf : c.tcp.flags = 0 := by simpa [hm] using c.tcp.sub.symm
    simp [TcpBits.Mem, hm, hf]
  case neg => rw [if_neg hm, TcpBits.Mem, imp_iff_right hm]

theorem loopbackCode_iff : (c.loopback = none ∨ boolCode p.loopback = c.loopback.elim 0 boolCode) ↔
    ∀ b ∈ c.loopback, b = p.loopback := by
  cases c.loopback <;> simp [boolCode_inj, eq_comm]

-- The part of a rule that both families share.
theorem pfMatchCommon_emit {α : Type} {zero : α} {ip mask : AddrCode → α} :
    pfMatchCommon (emit zero ip mask c).1.toRuleCommon p ↔
      (encodeRange c.sport.data 65535).Selects p.sport ∧
      (encodeRange c.dport.data 65535).Selects p.dport ∧
      (encodeRange c.proto.data 255).point.SelectsPoint p.proto ∧
      (∀ d ∈ c.dir, d = p.direction) ∧
      (encodeRange c.ttl.data 255).point.SelectsPoint p.ttl ∧
      c.tcp.Mem p.tcpFlags ∧
      (∀ b ∈ c.loopback, b = p.loopback) := by
  rw [← dirCode_iff, ← tcpCode_iff, ← loopbackCode_iff]
  simp only [pfMatchCommon, Bool.and_eq_true, clause, Flags.clause_iff]
  simp [emit, encodeCommon, RangeCode.Selects, RangeCode.SelectsPoint, and_assoc]

theorem pfMatchRule_emit {α : Type} {zero : α} {ip mask : AddrCode → α} {eq : α → α → α → Bool}
    {src dst : α} : pfMatchRule eq src dst p (emit zero ip mask c).1 ↔
      (encodeAddr c.src).Selects eq ip mask src ∧ (encodeAddr c.dst).Selects eq ip mask dst ∧
      pfMatchCommon (emit zero ip mask c).1.toRuleCommon p := by
  simp only [pfMatchRule, Bool.and_eq_true, clause, Flags.clause_iff]
  generalize pfMatchCommon _ p = rest
  simp +contextual [emit, encodeCommon, AddrCode.Selects, and_assoc]

-- The rule of a cube matches the packets that its encoded addresses select.
theorem emit_covers {α : Type} {zero : α} {ip mask : AddrCode → α} {eq : α → α → α → Bool}
    {src dst : α} (hv : ∀ v ∈ c.ver, v = p.ver) :
    Covers (encodeCommon c).2 (c.anywhere.Mem p ∧ (encodeAddr c.src).Selects eq ip mask src ∧
        (encodeAddr c.dst).Selects eq ip mask dst)
      (pfMatchRule eq src dst p (emit zero ip mask c).1) := by
  have hsp := (encodeRange_encodes c.sport.data).covers (by decide) (by decide) (v := p.sport) (by omega)
  have hdp := (encodeRange_encodes c.dport.data).covers (by decide) (by decide) (v := p.dport) (by omega)
  have hp := RangeCode.covers_point <|
    (encodeRange_encodes c.proto.data).covers (by decide) (by decide) (v := p.proto) (by omega)
  have ht := RangeCode.covers_point <|
    (encodeRange_encodes c.ttl.data).covers (by decide) (by decide) (v := p.ttl) (by omega)
  have hrest : Covers True ((∀ d ∈ c.dir, d = p.direction) ∧ c.tcp.Mem p.tcpFlags ∧
      ∀ b ∈ c.loopback, b = p.loopback) _ := .of_iff .rfl
  have haddr : Covers True ((encodeAddr c.src).Selects eq ip mask src ∧
      (encodeAddr c.dst).Selects eq ip mask dst) _ := .of_iff .rfl
  refine ((haddr.and <| hsp.and <| hdp.and <| hp.and <| ht.and hrest).mono ?_).congr ?_ ?_
  case refine_1 =>
    simp only [encodeCommon, Bool.and_eq_true]
    tauto
  case refine_2 =>
    rw [Cube.mem_iff]
    simp only [Cube.anywhere, PfAddr.mem_full]
    tauto
  case refine_3 =>
    rw [pfMatchRule_emit, pfMatchCommon_emit]
    tauto

theorem emit_exact {α : Type} {zero : α} {ip mask : AddrCode → α}
    (h : (emit zero ip mask c).2) : (encodeCommon c).2 ∧ ∀ useSrc, (encodeAddr (c.addr useSrc)).exact := by
  simp only [emit, Bool.and_eq_true] at h
  exact ⟨h.1.1, fun useSrc => by cases useSrc <;> simp [Cube.addr, h]⟩

end Prefilter
