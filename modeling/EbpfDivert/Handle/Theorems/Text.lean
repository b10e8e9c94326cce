import EbpfDivert.Handle.Theorems.Fate
import EbpfDivert.Handle.Theorems.Headers
import EbpfDivert.Wd.Text.Theorems.Compile

open Shared Prefilter Kernel

-- What holds of the filters that are given as text.
namespace Wd.Text

section Compiled

variable {layer : Layer} {filter : CString} {object : List Insn} {e : Expr} {t : TestExpr}

-- The tests whose negative literals the compiler leaves as they are.
theorem mayBeNeg_of_range {f : Field} (h : ∀ {lb ub}, fieldRange f = some (lb, ub) → lb.neg) :
    Prefilter.mayBeNeg f := by
  cases f <;> first | rfl | exact absurd (h rfl) (by decide)

theorem mayBeNeg_of_not_ruled (hm : t.kind ≠ .other) (hn : t.val.neg) (hr : t.ruled = none) :
    Prefilter.mayBeNeg (kindToField t.var) := by
  cases hv : t.var
  case field f idx =>
    refine mayBeNeg_of_range fun {lb ub} (hrange : fieldRange f = some (lb, ub)) => ?_
    simp only [TestExpr.ruled, hv, bounds, hrange, Option.map_some, Option.bind_some, decidedBy] at hr
    rw [compare128_eq (n := lb), compare128_eq (n := ⟨false, ub⟩)] at hr
    have hle := (le_of_not_decided hm hr).1
    simp only [Number.key, hn, if_true] at hle
    by_contra hpos
    simp only [hpos, if_false] at hle
    omega
  all_goals
    have := ruled_of_constant (by simp) hm hv
    rw [hr] at this
    cases this

theorem emitted_neg (hm : t.Made layer) : (simplifyTest t).kind ≠ .other ∧
    ((simplifyTest t).val.neg → Prefilter.mayBeNeg (kindToField (simplifyTest t).var)) := by
  cases hr : t.ruled
  case none =>
    rw [simplifyTest_of_not_ruled hr]
    exact ⟨hm.kind, fun hn => mayBeNeg_of_not_ruled hm.kind hn hr⟩
  case some r =>
    rw [simplifyTest_of_ruled hr]
    refine ⟨by simp, fun hn => ?_⟩
    cases r <;> simp [makeOne, makeZero] at hn

-- What the lowering takes for granted of compiled filters.
theorem compiled_of_compileFilter (ha : filter.head? ≠ some '@')
    (h : compileFilter layer filter = some (.ok object)) : Prefilter.Compiled object := by
  obtain ⟨s, e, hc⟩ := compiles_of_ok ha h
  have hmade := hc.derives.made hc.made
  have hinsn : ∀ insn ∈ object, insn.test ≠ .other ∧ (insn.neg → Prefilter.mayBeNeg insn.field) := by
    intro insn hi
    obtain ⟨⟨r, stack⟩, hf, hr⟩ := Option.map_eq_some_iff.mp hc.object
    cases r <;> cases hr
    rcases mem_emitFilter hi with ⟨-, ht, hn⟩ | ⟨st, hst, hfield, ht, hn⟩
    · simp [ht, hn]
    · obtain ⟨t, htm, hs, -⟩ := (mem_stack hf hst).resolve_left List.not_mem_nil
      rw [hfield, ht, hn, hs]
      exact emitted_neg (hmade t htm)
  exact {
    toProper := (executeFilter_compileExpr hc.object).1
    test     := fun insn hi => (hinsn insn hi).1
    neg      := fun insn hi => (hinsn insn hi).2 }

end Compiled

end Wd.Text

namespace Handle

open Wd.Text

variable {cfg : DivertConfig} {skb : Skb} {direction : Dir} {off : Nat}

theorem soundFor_of_packetAt (hl : Wire.Ethernet skb.bytes off)
    (hp : Wire.PacketAt skb.bytes skb.pulled.length off) : SoundFor cfg skb direction off := by
  obtain ⟨pkt, info, hk, hi, -, ha⟩ := agrees_of_packetAt hl hp
  have ha : Wire.Agrees pkt { info with protocol := pkt.proto } := ha.proto ▸ ha
  intro h h' t hash addr hlayer
  exact soundFor_of_agrees hk hi ha hlayer

-- The rules that are made of a filter match every packet that its text describes. The text is read
-- once, and the packet is any IP packet without extension headers that is not a fragment.
theorem matched_of_text {h h' : Handle} {t : Tables} {filter : CString} (hl : h.layer = .network)
    (ha : filter.head? ≠ some '@') (hc : compileFilter .network filter = some (.ok h.filter.object))
    (hn : ∀ insn ∈ h.filter.object, insn.field ≠ .localAddr ∧ insn.field ≠ .remoteAddr)
    (hload : h.loadRules = some (t, h')) : ∃ pre p e,
    tokenizeFilter .network filter = some (.ok (pre ++ [⟨.eof, some p⟩])) ∧
    Derives .filter (pre.map Token.kind) e ∧
    ∀ {cfg : DivertConfig} {skb : Skb} {direction : Dir} {off : Nat} {addr : Wd.Address}
      {hash : BitVec 64} {info : Wd.PacketInfo}, Wire.Ethernet skb.bytes off →
      Wire.PacketAt skb.bytes skb.pulled.length off →
      Wd.parsePacketEx (skb.bytes.drop off) = some info → addr.layer = .network →
      addr.ipv6 = info.ipv6Header.isSome → Addressed addr direction (isLo cfg skb) →
      let x := addr.input hash (skb.bytes.drop off) (some info)
      InRange x → (∀ t ∈ e.tests, Exact x t) → e.Holds x → matched t cfg skb direction := by
  have hfl : h.filter.layer = .network := h.filter_layer.trans hl
  obtain ⟨s, e, hs⟩ := compiles_of_ok ha hc
  obtain ⟨pre, p, ht, rfl⟩ := hs.reads
  refine ⟨pre, p, e, ht, hs.derives, ?_⟩
  intro cfg skb direction off addr hash info heth hpk hi hal hv hd x hx hexact hholds
  refine soundFor_of_packetAt heth hpk hl (compiled_of_compileFilter ha hc) hn hload hd
    (?_ : Wd.filterEval h.filter hash _ addr = some true)
  rw [filterEval_parsed hfl hal hi hv, (executeFilter_compileExpr hs.object).2,
    eval_eq_holds hs.derives.whole fun t ht => (hexact t ht).simplified_eq hx]
  exact congrArg some (decide_eq_true hholds)

def webHandle : Handle :=
  networkHandle 0 noFlags_valid webObject

-- An outgoing connection request to port 443.
theorem matched_of_text_web : ∃ t h', webHandle.loadRules = some (t, h') ∧
    matched t (webHandle.config calmConfig) synSkb .outbound := by
  have hload : webHandle.loadRules = some (_, _) := rfl
  have hpk : Wire.PacketAt synSkb.bytes synSkb.pulled.length 14 :=
    .v4 ⟨rfl, by decide, by decide, by decide, rfl⟩ ⟨by decide, nofun, nofun⟩ fun _ => by decide
  have hd : Addressed webAddress .outbound (isLo (webHandle.config calmConfig) synSkb) := ⟨rfl, rfl, rfl⟩
  obtain ⟨pre, p, e, ht, he, hm⟩ := matched_of_text rfl (by decide) compileFilter_web (by decide) hload
  obtain rfl := eq_webExpr ht he
  exact ⟨_, _, hload, hm (.untagged rfl) hpk rfl rfl rfl hd inRange_web (exact_web rfl)
    (show webExpr.Holds webInput by decide)⟩

end Handle
