import EbpfDivert.Prefilter.Theorems.Describes

open Wd (Test Field Header Insn)
open Shared (IpVer Dir)

namespace Prefilter

variable {p : PfPkt} {x : Wd.Input} {insn : Insn} {test : Test} {c c' : Cube} {cs : List Cube}
variable {h : Header} {b : Bool} {arg : Nat}

theorem negateTest_ne_other (ht : test ≠ .other) : negateTest test ≠ .other := by
  cases test <;> simp_all [negateTest]

theorem negateTest_eq_or_neq :
    negateTest test = .eq ∨ negateTest test = .neq ↔ test = .eq ∨ test = .neq := by
  cases test <;> simp [negateTest]

theorem negateTest_sat {v : Nat} (ht : test ≠ .other) :
    (negateTest test).Sat v arg ↔ ¬test.Sat v arg := by
  cases test <;> simp_all [negateTest, Test.Sat]

theorem negateTest_satSigned {v : Nat} {neg : Bool} (ht : test ≠ .other) :
    (negateTest test).SatSigned neg v arg ↔ ¬test.SatSigned neg v arg := by
  cases neg
  case false => exact negateTest_sat ht
  case true  => cases test <;> simp_all [negateTest]

theorem pfTest_negateTest {o : Ordering} (ht : test ≠ .other) :
    pfTest (negateTest test) o = !pfTest test o := by
  cases test <;> cases o <;> simp_all [negateTest, pfTest, Test.holds]

theorem pfTest_signed {v : Nat} {neg : Bool} (ht : test ≠ .other) :
    pfTest test (if neg then .gt else compare v arg) = decide (test.SatSigned neg v arg) := by
  rw [pfTest, Test.holds_signed ht, Option.getD_some]

theorem zeroTest_eq (ht : test ≠ .other) : zeroTest test arg false = decide (test.Sat 0 arg) := by
  have hs : pfTest test (if false then .gt else compare 0 arg) = _ := pfTest_signed ht
  have hp : pfTest test (compare 0 arg) = decide (test.Sat 0 arg) := hs
  rw [← hp, zeroTest]
  rcases Nat.eq_zero_or_pos arg with ha | ha
  case inl => simp [ha]
  case inr => simp [Nat.compare_eq_lt.mpr ha, ha.ne']

theorem zeroTest_negateTest {neg : Bool} (ht : test ≠ .other) :
    zeroTest (negateTest test) arg neg = !zeroTest test arg neg :=
  pfTest_negateTest ht

-- What is known of the value afterwards is what was known before and that the test holds.
theorem applyBool_spec (slot : Option Bool) (arg : Nat) (neg : Bool) (ht : test ≠ .other) :
    match applyBool slot test arg neg with
    | none       => ∀ v : Bool, (∀ s ∈ slot, s = v) → ¬test.SatSigned neg v.toNat arg
    | some slot' => ∀ v : Bool, (∀ s ∈ slot', s = v) ↔
      (∀ s ∈ slot, s = v) ∧ test.SatSigned neg v.toNat arg := by
  have hp v : pfTest test (boolCmp v arg neg) = decide (test.SatSigned neg v.toNat arg) :=
    pfTest_signed ht
  simp only [applyBool, hp, Bool.toNat_false, Bool.toNat_true, Bool.forall_bool]
  by_cases h₀ : test.SatSigned neg 0 arg <;> by_cases h₁ : test.SatSigned neg 1 arg <;>
    simp only [h₀, h₁] <;> rcases slot with _ | _ | _ <;> simp

theorem branchBool_splits {exact mem : Cube → Prop} {slot : Option Bool} {k : Bool → List Cube}
    {v : Bool} (ht : test ≠ .other) (hs : mem c → ∀ s ∈ slot, s = v)
    (hk : ∀ b, (∀ s ∈ slot, s = b) → DecisionGraph.Splits exact mem c (v = b) (k b)) :
    DecisionGraph.Splits exact mem c (test.SatSigned insn.neg v.toNat (insn.arg.word 0).toNat)
      (branchBool insn test c slot k) := by
  have spec := applyBool_spec slot (insn.arg.word 0).toNat insn.neg ht
  rw [branchBool]
  split <;> rename_i ha <;> rw [ha] at spec
  case _ => exact ⟨fun hm hφ => absurd hφ <| spec _ <| hs hm, by simp⟩
  case _ => exact .self ((spec _).mp (by simp)).right
  case _ b =>
    have hb := ((spec b).mp (by simp)).left
    refine (hk b hb).congr fun hm => ?_
    rw [← (spec _).trans (and_iff_right <| hs hm)]
    simp only [Option.mem_def, Option.some.injEq, forall_eq']
    exact eq_comm

theorem Dir.decide_eq_iff {d : Dir} {wantIn : Bool} :
    decide (d = if wantIn then .inbound else .outbound) = b ↔
      (if b = wantIn then .inbound else .outbound) = d := by
  cases d <;> cases wantIn <;> cases b <;> simp

theorem IpVer.decide_eq_iff {v : IpVer} {is4 : Bool} :
    decide (v = if is4 then .v4 else .v6) = b ↔ v = if b = is4 then .v4 else .v6 := by
  cases v <;> cases is4 <;> cases b <;> simp

theorem guardNeg_splits {exact mem : Cube → Prop} {φ : Prop} {o : Option Cube} {neg : Bool}
    (hn : neg = false) (h : DecisionGraph.Splits exact mem c φ o.toList) :
    DecisionGraph.Splits exact mem c φ (guardNeg neg o) := by
  simpa [guardNeg, hn] using h

-- Clamping to the IPv4-mapped addresses loses none of them.
theorem PfAddr.mem_clampV4 {a : PfAddr} {v : Words} :
    a.clampV4.Mem v ↔ a.Mem v ∧ v.isMappedIpv4 := by
  simp only [clampV4, Mem, Words.cmp128_eq_lt, Words.cmp128_eq_gt, Words.isMappedIpv4_iff,
    apply_ite Words.value, value_lo4, value_hi4]
  split_ifs <;> grind

theorem Cube.mem_setAddr {useSrc : Bool} {a : PfAddr} {φ : Prop}
    (h : a.Mem (p.addr useSrc) ↔ (c.addr useSrc).Mem (p.addr useSrc) ∧ φ) :
    (c.setAddr useSrc a).Mem p ↔ c.Mem p ∧ φ := by
  cases useSrc
  case false =>
    exact ⟨fun hm => ⟨{ hm with dst := (h.mp hm.dst).left }, (h.mp hm.dst).right⟩,
      fun ⟨hm, hφ⟩ => { hm with dst := h.mpr ⟨hm.dst, hφ⟩ }⟩
  case true =>
    exact ⟨fun hm => ⟨{ hm with src := (h.mp hm.src).left }, (h.mp hm.src).right⟩,
      fun ⟨hm, hφ⟩ => { hm with src := h.mpr ⟨hm.src, hφ⟩ }⟩

theorem Cube.clampV4_splits (useSrc : Bool) :
    p.Splits c (p.addr useSrc).isMappedIpv4 [c.setAddr useSrc (c.addr useSrc).clampV4] :=
  .of_mem_iff (by cases useSrc <;> rfl) <| mem_setAddr PfAddr.mem_clampV4

section Fields

variable (ht : test ≠ .other)
include ht

theorem branchDir_splits (wantIn : Bool) :
    p.Splits c (test.SatSigned insn.neg
      (decide (p.direction = if wantIn then .inbound else .outbound)).toNat (insn.arg.word 0).toNat)
      (branchDir insn test c wantIn) := by
  refine branchBool_splits ht (fun hm s hs => ?_) fun b hb => .of_mem_iff .rfl ?_
  case refine_1 =>
    obtain ⟨d, hd, rfl⟩ := Option.map_eq_some_iff.mp hs
    rw [hm.dir d hd]
  case refine_2 =>
    rw [Dir.decide_eq_iff]
    refine ⟨fun hm => ?_, fun ⟨hm, hd⟩ => { hm with dir := by simpa using hd }⟩
    have hd := hm.dir _ rfl
    refine ⟨{ hm with dir := fun d hd' => ?_ }, hd⟩
    rw [← Dir.decide_eq_iff.mp <| hb _ <| Option.map_eq_some_iff.mpr ⟨d, hd', rfl⟩, hd]

theorem branchLoopback_splits :
    p.Splits c (test.SatSigned insn.neg p.loopback.toNat (insn.arg.word 0).toNat)
      (branchLoopback insn test c) := by
  refine branchBool_splits ht (·.loopback) fun b hb => .of_mem_iff .rfl ?_
  refine ⟨fun hm => ?_, fun ⟨hm, hl⟩ => { hm with loopback := by simp [hl] }⟩
  have hl := hm.loopback b rfl
  exact ⟨{ hm with loopback := by grind }, hl.symm⟩

theorem branchVer_splits (is4 : Bool) :
    p.Splits c (test.SatSigned insn.neg (decide (p.ver = if is4 then .v4 else .v6)).toNat
      (insn.arg.word 0).toNat)
      (branchVer insn test c is4) := by
  refine branchBool_splits ht (fun hm s hs => ?_) fun b hb => Cube.setVer_splits.congr fun _ => ?_
  case refine_1 =>
    obtain ⟨v, hv, rfl⟩ := Option.map_eq_some_iff.mp hs
    rw [hm.ver v hv]
  case refine_2 => exact IpVer.decide_eq_iff.symm

theorem branchProto_splits {proto : BitVec 8} :
    p.Splits c (test.SatSigned insn.neg (decide (p.proto = proto)).toNat (insn.arg.word 0).toNat)
      (branchProto insn test c proto) := by
  refine branchBool_splits ht (by simp) fun b _ => ?_
  cases b
  case false => exact Cube.withoutProto_splits.congr fun _ => by simp
  case true  => exact Cube.setProto_splits.congr fun _ => by simp

theorem branchIcmp_splits (ver altVer : IpVer) {proto : BitVec 8} (hv : ∀ v, v = ver ↔ v ≠ altVer) :
    p.Splits c (test.SatSigned insn.neg (decide (p.ver = ver ∧ p.proto = proto)).toNat
      (insn.arg.word 0).toNat)
      (branchIcmp insn test c ver altVer proto) := by
  refine branchBool_splits ht (by simp) fun b _ => ?_
  cases b
  case false => exact (Cube.withoutIcmp_splits hv).congr fun _ => by simp
  case true  =>
    exact (Cube.setProto_splits.bind fun _ _ => Cube.setVer_splits).congr fun _ => by
      rw [and_comm]
      simp

theorem branchTcpFlag_splits (i : Nat) (hi : i < 8) :
    p.Splits c (test.SatSigned insn.neg (p.tcpFlags.getLsbD i).toNat (insn.arg.word 0).toNat)
      (branchTcpFlag insn test c (Flags.bit 8 i)) := by
  refine branchBool_splits ht (fun hm s hs => ?_) fun b hb => .of_mem_iff .rfl ?_
  case refine_1 =>
    simp only [TcpBits.get_bit hi, Option.mem_def, Option.ite_none_right_eq_some,
      Option.some.injEq] at hs
    rw [TcpBits.mem_iff.mp hm.tcp i hi hs.left, hs.right]
  case refine_2 =>
    have hset := TcpBits.mem_set (x := p.tcpFlags) hi hb
    refine ⟨fun hm => ?_, fun ⟨hm, hf⟩ => { hm with tcp := hset.mpr ⟨hm.tcp, hf⟩ }⟩
    exact ⟨{ hm with tcp := (hset.mp hm.tcp).left }, (hset.mp hm.tcp).right⟩

variable (hn : insn.neg = false)
include hn

theorem branchAddr_splits (useSrc v4 : Bool) :
    p.Splits c ((v4 → (p.addr useSrc).isMappedIpv4) ∧ test.Sat (p.addr useSrc).value insn.arg.value)
      (branchAddr insn test c useSrc v4) := by
  refine guardNeg_splits hn ?_
  cases v4
  case false => exact (Cube.withAddr_splits _ _ ht).congr fun _ => by simp
  case true =>
    have h := (Cube.clampV4_splits (p := p) (c := c) useSrc).flatMap fun c' _ =>
      Cube.withAddr_splits (p := p) (c := c') useSrc insn.arg ht
    simpa using h

end Fields

section Endpoint

variable {isLocal : Bool}

-- Both directions together are no restriction.
theorem PfPkt.Splits.bothDirs {φ : Prop} {f : Dir → List Cube}
    (h : ∀ d, p.Splits c (p.direction = d ∧ φ) (f d)) :
    p.Splits c φ (f .inbound ++ f .outbound) :=
  (h .inbound).append (h .outbound) |>.congr fun _ => by cases p.direction <;> simp

theorem PfPkt.useSrc_eq {d : Dir} (hd : p.direction = d) :
    p.useSrc isLocal = decide (d = if isLocal then .outbound else .inbound) := by
  rw [useSrc, hd]

theorem branchEndpointPort_splits {d : Dir} (ht : test ≠ .other) :
    p.Splits c (p.direction = d ∧
      test.Sat (p.port (p.useSrc isLocal)).toNat (insn.arg.word 0).toNat)
      (branchEndpointPort insn test c isLocal d) := by
  refine (Cube.setDir_splits.flatMap fun _ _ => Cube.withPort_splits _ ht).congr fun _ => ?_
  exact and_congr_right fun hd => by rw [PfPkt.useSrc_eq hd]

theorem PfPkt.Splits.map_ver {φ : Prop} {v : IpVer} (h : p.Splits c φ cs)
    (hn : ∀ c' ∈ cs, c'.ver = none) :
    p.Splits c (φ ∧ p.ver = v) (cs.map ({ · with ver := some v })) where
  sound hm hφ :=
    have ⟨c', hc, hm⟩ := h.sound hm hφ.left
    ⟨_, List.mem_map_of_mem hc, { hm with ver := by simp [hφ.right] }⟩
  exact c'' hc he hm := by
    obtain ⟨c', hc', rfl⟩ := List.mem_map.mp hc
    have ⟨he, hm', hφ⟩ := h.exact c' hc' he { hm with ver := by simp [hn c' hc'] }
    exact ⟨he, hm', hφ, (hm.ver v rfl).symm⟩

theorem PfPkt.Splits.map_full {φ : Prop} (h : p.Splits c φ cs) (useSrc : Bool) :
    p.Splits c φ (cs.map fun c' => (c'.setAddr useSrc .full).widen) := by
  refine h.map (fun c' _ _ _ hm => ?_) (by simp [Cube.widen])
  cases useSrc
  case false => exact { hm with dst := PfAddr.mem_full }
  case true  => exact { hm with src := PfAddr.mem_full }

-- A cube of unknown version takes it from the argument of an equality test, which may be another
-- version than the packet has.
def Guesses (p : PfPkt) (insn : Insn) (c : Cube) : Prop :=
  c.ver = none → insn.test = .eq → p.ver = if insn.arg.isMappedIpv4 then .v4 else .v6

theorem branchEndpointAddr_splits {d : Dir} (ht : insn.test ≠ .other) :
    p.Splits c (p.direction = d ∧ insn.test.Sat (p.addr (p.useSrc isLocal)).value insn.arg.value ∧
      Guesses p insn c) (branchEndpointAddr insn insn.test true c isLocal d) := by
  refine Cube.setDir_splits.flatMap fun alt ha => ?_
  have ⟨hd, hv⟩ : alt.dir = some d ∧ alt.ver = c.ver := by
    rw [Cube.setDir_eq_some <| Option.mem_toList.mp ha]
    exact ⟨rfl, rfl⟩
  have hu (hm : alt.Mem p) : p.useSrc isLocal = decide (d = if isLocal then .outbound else .inbound) :=
    PfPkt.useSrc_eq (hm.dir d hd).symm
  generalize decide (d = if isLocal then Dir.outbound else .inbound) = useSrc at hu ⊢
  have h : p.Splits alt _ (alt.withAddr useSrc insn.test insn.arg).toList :=
    Cube.withAddr_splits _ _ ht
  replace h := h.congr fun hm => by rw [← hu hm]
  rw [Guesses, ← hv]
  by_cases hn : alt.ver = none
  case neg => simpa [hn] using h
  case pos =>
    by_cases he : insn.test = .eq
    case neg => simpa [hn, he] using PfPkt.Splits.map_full h useSrc
    case pos =>
      have hs := PfPkt.Splits.map_ver (v := if insn.arg.isMappedIpv4 then .v4 else .v6) h
        fun c' hc => (Cube.withAddr_ver <| Option.mem_toList.mp hc).trans hn
      simpa [hn, he] using hs

theorem branchPort_known {recurse : Cube → List Cube} (ht : test ≠ .other) (hn : insn.neg = false)
    (hc : c.protoIs Wd.ipprotoTcp ∨ c.protoIs Wd.ipprotoUdp) :
    p.Splits c (test.Sat (p.port (p.useSrc isLocal)).toNat (insn.arg.word 0).toNat)
      (branchPort insn test c recurse isLocal) := by
  have hc : ¬(!c.protoIs Wd.ipprotoTcp ∧ !c.protoIs Wd.ipprotoUdp) := by grind
  simp only [branchPort, hn, hc, Bool.false_eq_true, ↓reduceIte]
  exact .bothDirs fun _ => branchEndpointPort_splits ht

-- Nothing is said about packets that are neither TCP nor UDP, which is why their cube is widened.
theorem branchPort_splits {recurse : Cube → List Cube} {φ : Prop} (ht : test ≠ .other)
    (hn : insn.neg = false)
    (hφ : p.proto = Wd.ipprotoTcp ∨ p.proto = Wd.ipprotoUdp →
      (test.Sat (p.port (p.useSrc isLocal)).toNat (insn.arg.word 0).toNat ↔ φ))
    (hr : ∀ c', c'.protoIs Wd.ipprotoTcp ∨ c'.protoIs Wd.ipprotoUdp →
      p.Splits c' (test.Sat (p.port (p.useSrc isLocal)).toNat (insn.arg.word 0).toNat) (recurse c')) :
    p.Splits c φ (branchPort insn test c recurse isLocal) := by
  by_cases hc : c.protoIs Wd.ipprotoTcp ∨ c.protoIs Wd.ipprotoUdp
  case pos => exact (branchPort_known ht hn hc).congr fun hm => hφ <| hc.imp hm.proto_eq hm.proto_eq
  case neg =>
    have hc : !c.protoIs Wd.ipprotoTcp ∧ !c.protoIs Wd.ipprotoUdp := by grind
    simp only [branchPort, hn, hc, Bool.false_eq_true, ↓reduceIte, and_self]
    have tcp : p.Splits c (p.proto = Wd.ipprotoTcp ∧ _) _ := Cube.setProto_splits.flatMap
      fun c' h => hr c' <| .inl <| Cube.setProto_protoIs <| Option.mem_toList.mp h
    have udp : p.Splits c (p.proto = Wd.ipprotoUdp ∧ _) _ := Cube.setProto_splits.flatMap
      fun c' h => hr c' <| .inr <| Cube.setProto_protoIs <| Option.mem_toList.mp h
    have rest : p.Splits c (p.proto ≠ Wd.ipprotoTcp ∧ p.proto ≠ Wd.ipprotoUdp ∧ φ) _ :=
      Cube.withoutProto_splits.bind fun _ _ => Cube.withoutProto_splits.bind
        (f := fun alt => some alt.widen) fun _ _ => Cube.widen_splits
    refine ((tcp.append udp).append rest).congr fun _ => ?_
    by_cases ht : p.proto = Wd.ipprotoTcp <;> by_cases hu : p.proto = Wd.ipprotoUdp <;> simp_all

theorem branchEndpoint_splits (ht : insn.test ≠ .other) (hn : insn.neg = false) :
    p.Splits c (insn.test.Sat (p.addr (p.useSrc isLocal)).value insn.arg.value ∧ Guesses p insn c)
      (branchEndpoint insn insn.test true c isLocal) := by
  simp only [branchEndpoint, hn, Bool.false_eq_true, ↓reduceIte]
  exact .bothDirs fun _ => branchEndpointAddr_splits ht

end Endpoint

-- The tests on fields of a header that are taken for impossible if their argument is negative.
def rejectsNeg (insn : Insn) : Bool :=
  match insn.field with
  | .ipTtl | .ipv6HopLimit => insn.test = .eq ∨ insn.test = .neq
  | .tcpFin | .tcpSyn | .tcpRst | .tcpPsh | .tcpAck | .tcpUrg => false
  | f => (trackedHeader f).isSome

-- The value of an IPv4 address field is expected to be mapped.
def PfPkt.Shows (p : PfPkt) : Field → Prop
  | .ipSrcAddr => p.ver = .v4 → p.src.isMappedIpv4
  | .ipDstAddr => p.ver = .v4 → p.dst.isMappedIpv4
  | _          => True

section

variable {positive : Bool} {recurse : Cube → List Cube}

theorem branchField_event (hf : insn.field = .event) : branchField insn test positive c recurse =
    if zeroTest test (insn.arg.word 0).toNat insn.neg then [c] else [] := by
  simp [branchField, hf]

theorem branchField_presence (hf : isPresence insn.field) (he : insn.field ≠ .event)
    (ht : test ≠ .other) :
    p.Splits c (test.SatSigned insn.neg (p.value insn.field) (operand insn))
      (branchField insn test positive c recurse) := by
  obtain ⟨f, test', _, _, neg, arg⟩ := insn
  cases f <;> simp [isPresence] at hf
  case event    => exact absurd rfl he
  case inbound  => exact branchDir_splits ht true
  case outbound => exact branchDir_splits ht false
  case loopback => exact branchLoopback_splits ht
  case ip       => exact branchVer_splits ht true
  case ipv6     => exact branchVer_splits ht false
  case tcp      => exact branchProto_splits ht
  case udp      => exact branchProto_splits ht
  case icmp     => exact branchIcmp_splits ht .v4 .v6 fun v => by cases v <;> simp
  case icmpv6   => exact branchIcmp_splits ht .v6 .v4 fun v => by cases v <;> simp

theorem branchField_tracked (hf : trackedHeader insn.field = some h) (hk : c.Mem p → p.Has h)
    (ho : insn.test ≠ .other) (ht : test = insn.test ∨ test = negateTest insn.test)
    (hr : insn.neg → rejectsNeg insn = false) :
    p.Splits c (p.Shows insn.field ∧ test.SatSigned insn.neg (p.value insn.field) (operand insn))
      (branchField insn test positive c recurse) := by
  have unsigned (h : rejectsNeg insn) : insn.neg = false := by
    rw [Bool.eq_false_iff]
    exact fun hn => by simp [hr hn] at h
  have ht' : test ≠ .other := ht.elim (· ▸ ho) (· ▸ negateTest_ne_other ho)
  have shown {φ : Prop} {cs : List Cube} (h : p.Splits c φ cs) : p.Splits c (True ∧ φ) cs :=
    h.congr fun _ => (and_iff_right trivial).symm
  obtain ⟨f, test', _, _, neg, arg⟩ := insn
  cases f <;> cases hf
  case ipTtl | ipv6HopLimit =>
    simp only [branchField, branchTtl]
    split_ifs with hq
    case pos =>
      have hq : test' = .eq ∨ test' = .neq := by
        cases ht
        case inl h => simpa [h] using hq
        case inr h => exact negateTest_eq_or_neq.mp (by simpa [h] using hq)
      obtain rfl : neg = false := unsigned (by simpa [rejectsNeg] using hq)
      exact shown <| guardNeg_splits rfl <| Cube.withTtl_splits ht'
    case neg => exact Cube.widen_splits
  case tcpFin => exact shown <| branchTcpFlag_splits ht' 0 (by decide)
  case tcpSyn => exact shown <| branchTcpFlag_splits ht' 1 (by decide)
  case tcpRst => exact shown <| branchTcpFlag_splits ht' 2 (by decide)
  case tcpPsh => exact shown <| branchTcpFlag_splits ht' 3 (by decide)
  case tcpAck => exact shown <| branchTcpFlag_splits ht' 4 (by decide)
  case tcpUrg => exact shown <| branchTcpFlag_splits ht' 5 (by decide)
  all_goals obtain rfl : neg = false := unsigned rfl
  case ipProtocol => exact shown <| guardNeg_splits rfl <| Cube.withProto_splits ht'
  case tcpSrcPort | udpSrcPort | icmpType | icmpv6Type =>
    exact shown <| guardNeg_splits rfl <| Cube.withPort_splits true ht'
  case tcpDstPort | udpDstPort | icmpCode | icmpv6Code =>
    exact shown <| guardNeg_splits rfl <| Cube.withPort_splits false ht'
  case ipSrcAddr | ipDstAddr =>
    refine (branchAddr_splits ht' rfl _ true).congr fun hm => and_congr_left' ?_
    have h4 : p.ver = .v4 := hk hm
    simp [PfPkt.Shows, PfPkt.addr, h4]
  case ipv6SrcAddr | ipv6DstAddr =>
    refine (branchAddr_splits ht' rfl _ false).congr fun _ => and_congr_left' ?_
    simp [PfPkt.Shows]

theorem branchField_rejected (hn : insn.neg) (hr : rejectsNeg insn)
    (ht : test = insn.test ∨ test = negateTest insn.test) :
    branchField insn test positive c recurse = [] := by
  obtain ⟨f, test', _, _, neg, arg⟩ := insn
  obtain rfl : neg = true := hn
  cases f <;> simp [rejectsNeg, trackedHeader] at hr
  case ipTtl | ipv6HopLimit =>
    rcases ht with rfl | rfl <;> rcases hr with rfl | rfl <;> rfl
  all_goals rfl

end

-- A field that `pf_branch` cannot say to be absent.
structure Untracked (f : Field) : Prop where
  ne_zero      : f ≠ .zero
  not_presence : isPresence f = false
  no_header    : trackedHeader f = none

-- How `pf_branch` treats the fields on the packet layers.
inductive Treatment (f : Field) : Prop
  | zero (hz : f = .zero)
  | presence (hp : isPresence f)
  | tracked {h : Header} (hf : trackedHeader f = some h)
  | addr (isLocal : Bool) (hf : f = addrField isLocal)
  | port (isLocal : Bool) (hf : f = portField isLocal)
  | widen (hu : Untracked f) (he : ∀ l, f ≠ addrField l ∧ f ≠ portField l)
      (hw : ∀ {insn test positive c recurse}, insn.field = f →
        branchField insn test positive c recurse = [c.widen])

theorem treatment (f : Field) : Treatment f := by
  cases f
  case zero => exact .zero rfl
  case inbound | outbound | loopback | ip | ipv6 | tcp | udp | icmp | icmpv6 | event =>
    exact .presence rfl
  case ipTtl | ipProtocol | ipSrcAddr | ipDstAddr | ipv6HopLimit | ipv6SrcAddr | ipv6DstAddr |
      tcpSrcPort | tcpDstPort | tcpSyn | tcpAck | tcpFin | tcpRst | tcpPsh | tcpUrg | udpSrcPort |
      udpDstPort | icmpType | icmpCode | icmpv6Type | icmpv6Code =>
    exact .tracked rfl
  case localAddr  => exact .addr true rfl
  case remoteAddr => exact .addr false rfl
  case localPort  => exact .port true rfl
  case remotePort => exact .port false rfl
  all_goals
    refine .widen ⟨by simp, rfl, rfl⟩ (fun l => ?_) fun hf => by simp [branchField, hf]
    cases l <;> simp [addrField, portField]

-- The one case in which a test on the local or remote address loses a packet that passes it.
def EndpointOk (p : PfPkt) (insn : Insn) (c : Cube) : Prop :=
  ∀ isLocal, insn.field = addrField isLocal → Guesses p insn c

namespace pfBranchFrom

variable {fuel : Nat}

theorem isPresence_header {f : Field} (hp : isPresence f) : f.header = none ∧ f ≠ .zero := by
  cases f <;> first | (cases hp; done) | exact ⟨rfl, nofun⟩

-- A presence field needs no header, so both outcomes only go through the field's own case.
theorem presence (hp : isPresence insn.field) :
    pfBranchFrom false (fuel + 1) insn b c = branchField insn
      (if b then insn.test else negateTest insn.test) b c (pfBranchFrom false fuel insn b) := by
  have ⟨hh, hz⟩ := isPresence_header hp
  cases b <;> simp [pfBranchFrom, hz, hp, Cube.requireHeader, hh]

theorem tracked (hf : trackedHeader insn.field = some h) :
    pfBranchFrom false (fuel + 1) insn b c =
      let branch test c := branchField insn test b c (pfBranchFrom false fuel insn b)
      if b then (c.assume h).toList.flatMap (branch insn.test)
      else if c.knows h then branch (negateTest insn.test) c
      else c.without h ++ (c.assume h).toList.flatMap (branch (negateTest insn.test)) := by
  have hp : isPresence insn.field = false ∧ insn.field ≠ .zero := by
    obtain ⟨f, _, _, _, _, _⟩ := insn
    cases f <;> simp_all [isPresence, trackedHeader]
  simp only [pfBranchFrom, hp, Cube.requireHeader, trackedHeader_header hf, Cube.hasHeader, pfAbsent,
    hf, Option.any_some, Option.map_some, Bool.false_or, Bool.false_eq_true, ↓reduceIte]

-- A failed test on any other field leaves the cube as it is, but no longer exact.
theorem untracked (hu : Untracked insn.field) :
    pfBranchFrom false (fuel + 1) insn b c =
      if b then (c.requireHeader insn.field).toList.flatMap fun c =>
        branchField insn insn.test true c (pfBranchFrom false fuel insn true)
      else [c.widen] := by
  have ⟨hz, hp, hf⟩ := hu
  cases b <;> simp [pfBranchFrom, hz, hp, Cube.hasHeader, hf, pfAbsent]

theorem addr {isLocal : Bool} (hf : insn.field = addrField isLocal) :
    pfBranchFrom false (fuel + 1) insn b c =
      if b then branchEndpoint insn insn.test true c isLocal else [c.widen] := by
  have hu : Untracked insn.field := by
    cases isLocal <;> rw [hf] <;> exact ⟨nofun, rfl, rfl⟩
  have hh : insn.field.header = none := by
    cases isLocal <;> rw [hf] <;> rfl
  rw [untracked hu, Cube.requireHeader, hh]
  cases isLocal <;> simp [branchField, hf, addrField]

theorem port {isLocal : Bool} (hf : insn.field = portField isLocal) :
    pfBranchFrom false (fuel + 1) insn b c =
      if b then branchPort insn insn.test c (pfBranchFrom false fuel insn true) isLocal
      else [c.widen] := by
  have hu : Untracked insn.field := by
    cases isLocal <;> rw [hf] <;> exact ⟨nofun, rfl, rfl⟩
  have hh : insn.field.header = none := by
    cases isLocal <;> rw [hf] <;> rfl
  rw [untracked hu, Cube.requireHeader, hh]
  cases isLocal <;> simp [branchField, hf, portField]

theorem endpoint_neg {isLocal : Bool}
    (hf : insn.field = addrField isLocal ∨ insn.field = portField isLocal) (hn : insn.neg) :
    pfBranchFrom false (fuel + 1) insn b c = if b then [] else [c.widen] := by
  rcases hf with hf | hf
  case inl => simp [addr hf, branchEndpoint, hn]
  case inr => simp [port hf, branchPort, hn]

end pfBranchFrom

-- The fields whose tests may keep a negative argument: the compiler replaces a test by its result if
-- the argument is out of the range of the field, but does not know the range of all fields.
def mayBeNeg (f : Field) : Bool :=
  f = .loopback ∨ (f ≠ .zero ∧ !isPresence f ∧ trackedHeader f = none ∧
    f ∉ [.localAddr, .remoteAddr, .localPort, .remotePort])

theorem isPresence_validateField {f : Field} (hp : isPresence f) : Wd.validateField .network f := by
  cases f <;> simp_all [isPresence, Wd.validateField]

section

variable {fuel : Nat} (ht : insn.test ≠ .other)
include ht

-- A test of a value that is always 0.
theorem pfBranchFrom_zero (hz : insn.field = .zero ∨ insn.field = .event) :
    p.Splits c (zeroTest insn.test (insn.arg.word 0).toNat insn.neg = b)
      (pfBranchFrom false (fuel + 1) insn b c) := by
  rcases hz with hz | hz
  case inl =>
    simp only [pfBranchFrom, hz, ↓reduceIte]
    exact .ite .rfl
  case inr =>
    rw [pfBranchFrom.presence (by rw [hz]; rfl), branchField_event hz]
    refine .ite ?_
    cases b <;> simp [zeroTest_negateTest ht]

theorem pfBranchFrom_presence (hp : isPresence insn.field) (he : insn.field ≠ .event) :
    p.Splits c (b ↔ insn.test.SatSigned insn.neg (p.value insn.field) (operand insn))
      (pfBranchFrom false (fuel + 1) insn b c) := by
  rw [pfBranchFrom.presence hp]
  cases b
  case false =>
    exact (branchField_presence hp he (negateTest_ne_other ht)).congr fun _ => by
      simp [negateTest_satSigned ht]
  case true => simpa using branchField_presence hp he ht

theorem pfBranchFrom_tracked (hf : trackedHeader insn.field = some h)
    (hr : insn.neg → rejectsNeg insn = false) :
    p.Splits c (p.Shows insn.field ∧
        (b ↔ p.Has h ∧ insn.test.SatSigned insn.neg (p.value insn.field) (operand insn)))
      (pfBranchFrom false (fuel + 1) insn b c) := by
  have assumed {test : Test} (ht' : test = insn.test ∨ test = negateTest insn.test) :
      p.Splits c (p.Has h ∧ p.Shows insn.field ∧
          test.SatSigned insn.neg (p.value insn.field) (operand insn))
        ((c.assume h).toList.flatMap fun c =>
          branchField insn test b c (pfBranchFrom false fuel insn b)) :=
    Cube.assume_splits.flatMap fun c' hc => branchField_tracked hf
      (·.has <| Cube.assume_knows <| Option.mem_toList.mp hc) ht ht' hr
  -- Without the header there is nothing to show.
  have shows (hn : ¬p.Has h) : p.Shows insn.field := by
    revert hf
    cases insn.field <;> rintro ⟨⟩ <;> simp_all [PfPkt.Shows, PfPkt.Has]
  rw [pfBranchFrom.tracked hf]
  cases b
  case true  => exact (assumed (.inl rfl)).congr fun _ => by simp only [true_iff]; tauto
  case false =>
    by_cases hk : c.knows h
    case pos =>
      simp only [hk, Bool.false_eq_true, ↓reduceIte, false_iff]
      refine (branchField_tracked hf (·.has hk) ht (.inr rfl) hr).congr fun hm => ?_
      simp [negateTest_satSigned ht, hm.has hk]
    case neg =>
      simp only [hk, Bool.false_eq_true, ↓reduceIte, false_iff]
      refine (Cube.without_splits.append <| assumed (.inr rfl)).congr fun _ => ?_
      rw [negateTest_satSigned ht]
      tauto

omit ht in
-- Only packets without the header are left.
theorem pfBranchFrom_rejected (hf : trackedHeader insn.field = some h) (hn : insn.neg)
    (hr : rejectsNeg insn) :
    p.Splits c (b = false ∧ ¬p.Has h) (pfBranchFrom false (fuel + 1) insn b c) := by
  have hb {test : Test} {c : Cube} (ht : test = insn.test ∨ test = negateTest insn.test) :
      branchField insn test b c (pfBranchFrom false fuel insn b) = [] :=
    branchField_rejected hn hr ht
  have hl {l : List Cube} : l.flatMap (fun _ => ([] : List Cube)) = [] := by simp
  rw [pfBranchFrom.tracked hf]
  cases b
  case true  =>
    simp only [hb (.inl rfl), ↓reduceIte, hl]
    exact .nil (by simp)
  case false =>
    simp only [hb (.inr rfl), Bool.false_eq_true, ↓reduceIte, hl, List.append_nil]
    split_ifs with hk
    case pos => exact (DecisionGraph.Splits.nil id).congr fun hm => by simp [hm.has hk]
    case neg => exact Cube.without_splits.congr fun _ => by simp

omit ht in
theorem pfBranchFrom_widen {φ : Prop} (hu : Untracked insn.field)
    (hw : ∀ {c}, branchField insn insn.test true c (pfBranchFrom false fuel insn true) = [c.widen])
    (hφ : b → φ → ∀ h ∈ insn.field.header, p.Has h) :
    p.Splits c φ (pfBranchFrom false (fuel + 1) insn b c) := by
  rw [pfBranchFrom.untracked hu]
  cases b
  case false => exact Cube.widen_splits
  case true =>
    simp only [↓reduceIte, hw]
    cases hh : insn.field.header
    case none   => simpa [Cube.requireHeader, hh] using Cube.widen_splits
    case some h =>
      simp only [Cube.requireHeader, hh]
      have hs : p.Splits c (p.Has h ∧ φ) _ := Cube.assume_splits.flatMap fun _ _ => Cube.widen_splits
      exact hs.congr fun _ => and_iff_right_of_imp fun h' => hφ rfl h' h hh

section Endpoint

variable {isLocal : Bool} (hn : insn.neg = false)
include hn

theorem pfBranchFrom_addr (hf : insn.field = addrField isLocal) :
    p.Splits c ((b ↔ insn.test.Sat (p.addr (p.useSrc isLocal)).value insn.arg.value) ∧
      (b → Guesses p insn c)) (pfBranchFrom false (fuel + 1) insn b c) := by
  rw [pfBranchFrom.addr hf]
  cases b
  case false => exact Cube.widen_splits
  case true  => simpa using branchEndpoint_splits ht hn

-- For a port two levels of nesting are enough.
theorem pfBranchFrom_port {φ : Prop} (hf : insn.field = portField isLocal)
    (hφ : p.proto = Wd.ipprotoTcp ∨ p.proto = Wd.ipprotoUdp → b →
      (insn.test.Sat (p.port (p.useSrc isLocal)).toNat (insn.arg.word 0).toNat ↔ φ)) :
    p.Splits c φ (pfBranchFrom false (fuel + 2) insn b c) := by
  rw [pfBranchFrom.port hf]
  cases b
  case false => exact Cube.widen_splits
  case true =>
    refine branchPort_splits ht hn (hφ · rfl) fun c' hc => ?_
    rw [pfBranchFrom.port hf]
    exact branchPort_known ht hn hc

end Endpoint

omit ht in
-- Only packets that fail the test are left.
theorem pfBranchFrom_endpoint_neg {isLocal : Bool} {φ : Prop}
    (hf : insn.field = addrField isLocal ∨ insn.field = portField isLocal) (hn : insn.neg)
    (hφ : φ → b = false) : p.Splits c φ (pfBranchFrom false (fuel + 1) insn b c) := by
  rw [pfBranchFrom.endpoint_neg hf hn]
  cases b
  case false => exact Cube.widen_splits
  case true  => exact .nil fun h => nomatch hφ h

end

instance : DecidablePred p.Has
  | .ip | .ipv6 | .tcp | .udp => inferInstanceAs (Decidable (_ = _))
  | .icmp | .icmpv6           => inferInstanceAs (Decidable (_ ∧ _))

-- What `pf_branch` takes for the result of a test of the evaluator, none if it drops the packet. It
-- differs for some tests with a negative argument only.
def pfAnswer (p : PfPkt) (x : Wd.Input) (insn : Insn) : Option Bool :=
  if insn.neg then
    match insn.field with
    | .zero | .event => some (zeroTest insn.test (insn.arg.word 0).toNat true)
    | .localAddr | .remoteAddr | .localPort | .remotePort => (Wd.answer x insn).filter (!·)
    | f => if rejectsNeg insn ∧ ∃ h ∈ trackedHeader f, p.Has h then none else Wd.answer x insn
  else
    Wd.answer x insn

theorem pfAnswer_unsigned (hn : insn.neg = false) : pfAnswer p x insn = Wd.answer x insn := by
  simp [pfAnswer, hn]

theorem pfAnswer_zero (d : Describes p x) (hz : insn.field = .zero ∨ insn.field = .event)
    (hv : Wd.validateField x.layer insn.field) (ht : insn.test ≠ .other) :
    pfAnswer p x insn = some (zeroTest insn.test (insn.arg.word 0).toNat insn.neg) := by
  cases hn : insn.neg
  case true => rcases hz with hz | hz <;> simp [pfAnswer, hn, hz]
  case false =>
    have hp : isPresence insn.field ∨ insn.field = .zero := hz.symm.imp_left fun hz => by rw [hz]; rfl
    have ho : p.value insn.field = 0 ∧ operand insn = (insn.arg.word 0).toNat := by
      rcases hz with hz | hz <;> simp [hz, PfPkt.value, operand]
    rw [pfAnswer_unsigned hn, zeroTest_eq ht, d.answer_presence hp hv ht, ho.left, ho.right, hn]
    simp

theorem pfAnswer_endpoint {isLocal : Bool} (hn : insn.neg)
    (hf : insn.field = addrField isLocal ∨ insn.field = portField isLocal) :
    pfAnswer p x insn = some b ↔ b = false ∧ Wd.answer x insn = some false := by
  have hp : pfAnswer p x insn = (Wd.answer x insn).filter (!·) := by
    rcases hf with hf | hf <;> cases isLocal <;> simp [pfAnswer, hn, hf, addrField, portField]
  rw [hp, Option.filter_eq_some_iff]
  cases b <;> simp

theorem pfAnswer_rejected (d : Describes p x) (hf : trackedHeader insn.field = some h) (hn : insn.neg)
    (hr : rejectsNeg insn) (ht : insn.test ≠ .other) :
    pfAnswer p x insn = some b ↔ b = false ∧ ¬p.Has h := by
  have hp : pfAnswer p x insn = if p.Has h then none else Wd.answer x insn := by
    rw [pfAnswer, if_pos hn]
    split
    case h_7 => simp [hr, hf]
    all_goals
      rename_i hi
      rw [hi] at hf
      cases hf
  rw [hp]
  split_ifs with hh
  case pos => simp [hh]
  case neg =>
    rw [d.answer_tracked hf ht]
    cases b <;> simp [hh]

theorem rejectsNeg_isSome (hr : rejectsNeg insn) : (trackedHeader insn.field).isSome := by
  obtain ⟨f, _, _, _, _, _⟩ := insn
  cases f <;> simp [rejectsNeg, trackedHeader] at hr ⊢

-- All other tests are taken for what they are.
theorem pfAnswer_other (hz : insn.field ≠ .zero ∧ insn.field ≠ .event)
    (hr : insn.neg → rejectsNeg insn = false)
    (he : ∀ isLocal, insn.field ≠ addrField isLocal ∧ insn.field ≠ portField isLocal) :
    pfAnswer p x insn = Wd.answer x insn := by
  cases hn : insn.neg
  case false => exact pfAnswer_unsigned hn
  case true =>
    have ⟨hla, hlp⟩ := he true
    have ⟨hra, hrp⟩ := he false
    rw [pfAnswer, if_pos hn]
    split
    case h_1 hf => exact absurd hf hz.left
    case h_2 hf => exact absurd hf hz.right
    case h_3 hf => exact absurd hf hla
    case h_4 hf => exact absurd hf hra
    case h_5 hf => exact absurd hf hlp
    case h_6 hf => exact absurd hf hrp
    case h_7    => simp [hr hn]

theorem pfAnswer_presence (hp : isPresence insn.field) (he : insn.field ≠ .event) :
    pfAnswer p x insn = Wd.answer x insn := by
  refine pfAnswer_other ⟨fun hz => ?_, he⟩ (fun _ => ?_) fun l => ⟨fun hf => ?_, fun hf => ?_⟩
  case refine_1 => simp [hz, isPresence] at hp
  case refine_2 =>
    rw [Bool.eq_false_iff]
    intro hr
    have := rejectsNeg_isSome hr
    obtain ⟨f, _, _, _, _, _⟩ := insn
    cases f <;> simp_all [isPresence, trackedHeader]
  case refine_3 => cases l <;> simp [hf, isPresence, addrField] at hp
  case refine_4 => cases l <;> simp [hf, isPresence, portField] at hp

theorem pfAnswer_tracked (hf : trackedHeader insn.field = some h)
    (hr : insn.neg → rejectsNeg insn = false) : pfAnswer p x insn = Wd.answer x insn := by
  refine pfAnswer_other ⟨fun hz => ?_, fun hz => ?_⟩ hr fun l => ⟨fun hl => ?_, fun hl => ?_⟩
  case refine_1 | refine_2 => simp [hz, trackedHeader] at hf
  case refine_3 => cases l <;> simp [hl, trackedHeader, addrField] at hf
  case refine_4 => cases l <;> simp [hl, trackedHeader, portField] at hf

theorem pfAnswer_mayBeNeg (hn : insn.neg → mayBeNeg insn.field) :
    pfAnswer p x insn = Wd.answer x insn := by
  cases hneg : insn.neg
  case false => exact pfAnswer_unsigned hneg
  case true =>
    have hm := hn hneg
    simp only [mayBeNeg, decide_eq_true_eq] at hm
    rcases hm with hl | ⟨hz, hp, hf, he⟩
    case inl => exact pfAnswer_presence (by rw [hl]; rfl) (by simp [hl])
    case inr =>
      refine pfAnswer_other ⟨hz, fun he => by simp [he, isPresence] at hp⟩ (fun _ => ?_) fun l => ?_
      case refine_1 =>
        rw [Bool.eq_false_iff]
        exact fun hr => by simpa [hf] using rejectsNeg_isSome hr
      case refine_2 => cases l <;> simp_all [addrField, portField]

theorem answer_of_pfAnswer (hh : insn.field.header = some h) (ha : pfAnswer p x insn = some b) :
    Wd.answer x insn = some b := by
  rw [pfAnswer] at ha
  split_ifs at ha
  case neg => exact ha
  case pos =>
    split at ha
    case h_7 =>
      split_ifs at ha
      exact ha
    all_goals
      rename_i hf
      simp [hf, Wd.Field.header] at hh

-- A field that the layer does not have has no value.
theorem pfAnswer_invalid (hv : Wd.validateField x.layer insn.field = false) :
    pfAnswer p x insn = none := by
  have ha : Wd.answer x insn = none := by simp [Wd.answer, hv]
  rw [pfAnswer]
  split_ifs
  case neg => exact ha
  case pos =>
    split
    case h_1 hf | h_2 hf => simp [hf, Wd.validateField] at hv
    all_goals simp [ha]

-- The answers that the lowering expects of a packet with the fields `p`. It expects nothing of the
-- fields that it cannot express, except that a test does not succeed without the header.
structure Reads (p : PfPkt) (insn : Insn) (answer : Option Bool) : Prop where
  zero     : insn.field = .zero ∨ insn.field = .event →
    answer = some (zeroTest insn.test (insn.arg.word 0).toNat insn.neg)
  presence : isPresence insn.field → insn.field ≠ .event → ∀ b, answer = some b ↔
    (b ↔ insn.test.SatSigned insn.neg (p.value insn.field) (operand insn))
  rejected : ∀ h ∈ trackedHeader insn.field, insn.neg → rejectsNeg insn → ∀ b, answer = some b ↔
    b = false ∧ ¬p.Has h
  tracked  : ∀ h ∈ trackedHeader insn.field, (insn.neg → rejectsNeg insn = false) → ∀ b,
    answer = some b ↔ p.Shows insn.field ∧
      (b ↔ p.Has h ∧ insn.test.SatSigned insn.neg (p.value insn.field) (operand insn))
  addr     : ∀ l, insn.field = addrField l → insn.neg = false → ∀ b, answer = some b ↔
    (b ↔ insn.test.Sat (p.addr (p.useSrc l)).value insn.arg.value)
  port     : ∀ l, insn.field = portField l → insn.neg = false →
    p.proto = Wd.ipprotoTcp ∨ p.proto = Wd.ipprotoUdp → ∀ b, answer = some b ↔
      (b ↔ insn.test.Sat (p.port (p.useSrc l)).toNat (insn.arg.word 0).toNat)
  endpoint : ∀ l, insn.field = addrField l ∨ insn.field = portField l → insn.neg →
    answer ≠ some true
  absent   : ∀ h ∈ insn.field.header, answer = some true → p.Has h

-- The lowering splits the cubes by these answers.
theorem pfBranch_splits {answer : Option Bool} (hr : Reads p insn answer) (ht : insn.test ≠ .other) :
    p.Splits c (answer = some b ∧ (b → EndpointOk p insn c)) (pfBranch false insn b c) := by
  -- Only tests on the local or remote address have to guess.
  have free {cs : List Cube} (h : p.Splits c (answer = some b) cs)
      (hf : ∀ l, insn.field ≠ addrField l) :
      p.Splits c (answer = some b ∧ (b → EndpointOk p insn c)) cs :=
    h.congr fun _ => (and_iff_left fun _ l hl => absurd hl (hf l)).symm
  have zero (hz : insn.field = .zero ∨ insn.field = .event) :
      p.Splits c (answer = some b ∧ (b → EndpointOk p insn c)) (pfBranch false insn b c) := by
    refine free ?_ fun l => by rcases hz with hz | hz <;> cases l <;> simp [hz, addrField]
    rw [hr.zero hz, Option.some.injEq]
    exact pfBranchFrom_zero ht hz
  cases treatment insn.field
  case zero hz     => exact zero (.inl hz)
  case presence hp =>
    by_cases he : insn.field = .event
    case pos => exact zero (.inr he)
    case neg =>
      refine free ?_ fun l hl => by cases l <;> simp [hl, addrField, isPresence] at hp
      rw [hr.presence hp he]
      exact pfBranchFrom_presence ht hp he
  case tracked h hf =>
    refine free ?_ fun l hl => by cases l <;> simp [hl, addrField, trackedHeader] at hf
    by_cases hn : insn.neg ∧ rejectsNeg insn
    case pos =>
      rw [hr.rejected h hf hn.left hn.right]
      exact pfBranchFrom_rejected hf hn.left hn.right
    case neg =>
      have hn (h : insn.neg) : rejectsNeg insn = false := by simpa [h] using hn
      rw [hr.tracked h hf hn]
      exact pfBranchFrom_tracked ht hf hn
  case addr l hf   =>
    cases hn : insn.neg
    case true =>
      exact pfBranchFrom_endpoint_neg (.inl hf) hn fun h => by
        cases b
        case false => rfl
        case true  => exact absurd h.left (hr.endpoint l (.inl hf) hn)
    case false =>
      refine (pfBranchFrom_addr ht hn hf).congr fun _ => ?_
      rw [hr.addr l hf hn]
      refine and_congr_right fun _ => forall_congr' fun _ => ⟨fun h _ _ => h, fun h => h l hf⟩
  case port l hf   =>
    refine free ?_ fun l' hl => by cases l <;> cases l' <;> simp [hf, portField, addrField] at hl
    cases hn : insn.neg
    case true =>
      exact pfBranchFrom_endpoint_neg (.inr hf) hn fun h => by
        cases b
        case false => rfl
        case true  => exact absurd h (hr.endpoint l (.inr hf) hn)
    case false =>
      refine pfBranchFrom_port ht hn hf fun hp hb => ?_
      rw [hr.port l hf hn hp, hb]
      simp
  case widen hu _ hw =>
    refine pfBranchFrom_widen hu (hw rfl) fun hb h => ?_
    exact fun hd hh => hr.absent hd hh (hb ▸ h.left)

-- For a whole packet these are the answers of the evaluator, apart from some tests with a negative
-- argument. On the network layer nothing depends on the field being valid.
theorem Describes.reads (d : Describes p x) (ht : insn.test ≠ .other)
    (hv : x.layer = .network ∨ Wd.validateField x.layer insn.field) :
    Reads p insn (pfAnswer p x insn) := by
  have valid (h : Wd.validateField .network insn.field) : Wd.validateField x.layer insn.field :=
    hv.elim (fun hl => hl ▸ h) id
  have shows : p.Shows insn.field := by
    cases insn.field <;> try trivial
    case ipSrcAddr => exact fun h => d.mapped h true
    case ipDstAddr => exact fun h => d.mapped h false
  constructor
  case zero =>
    intro hz
    exact pfAnswer_zero d hz (valid (by rcases hz with hz | hz <;> simp [hz, Wd.validateField])) ht
  case presence =>
    intro hp he b
    rw [pfAnswer_presence hp he]
    exact d.answer_presence (.inl hp) (valid (isPresence_validateField hp)) ht
  case rejected =>
    intro h hf hn hr b
    exact pfAnswer_rejected d hf hn hr ht
  case tracked =>
    intro h hf hr b
    rw [pfAnswer_tracked hf hr, d.answer_tracked hf ht, and_iff_right shows]
  case addr =>
    intro l hf hn b
    have hv := valid (by cases l <;> simp [hf, addrField, Wd.validateField])
    rw [pfAnswer_unsigned hn, d.answer_endpointAddr hf hv ht, hn]
    cases b <;> simp
  case port =>
    intro l hf hn hp b
    have hv := valid (by cases l <;> simp [hf, portField, Wd.validateField])
    rw [pfAnswer_unsigned hn, d.answer_endpointPort hf hv ht hp, hn]
    cases b <;> simp
  case endpoint =>
    intro l hf hn h
    exact absurd ((pfAnswer_endpoint hn hf).mp h).left (by simp)
  case absent =>
    intro h hh ha
    exact by_contra fun hn => d.answer_absent hh hn (answer_of_pfAnswer hh ha)

end Prefilter
