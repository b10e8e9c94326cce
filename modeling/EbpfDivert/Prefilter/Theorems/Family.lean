import EbpfDivert.Prefilter.Theorems.Branch

open Wd (Test Field Header Insn)
open Shared (IpVer Dir)

namespace Prefilter

variable {insn : Insn} {test : Test} {c c' c'' : Cube} {b : Bool} {arg : Nat} {h : Header}
variable {ver : IpVer} {proto : BitVec 8}

-- The headers that only packets of one IP version have.
def versioned : Header → Bool
  | .tcp | .udp => false
  | _           => true

-- A test of a value that is 0 or 1 whose result depends on the value.
def tells (insn : Insn) : Bool :=
  decide (insn.test.SatSigned insn.neg 0 (insn.arg.word 0).toNat) !=
    decide (insn.test.SatSigned insn.neg 1 (insn.arg.word 0).toNat)

-- The outcomes of a test after which the lowering knows the IP version.
def settles (insn : Insn) (b : Bool) : Bool :=
  match insn.field with
  | .ip | .ipv6 | .icmp | .icmpv6 => tells insn
  | .localAddr | .remoteAddr      => b && insn.test = .eq
  | f                             => f.header.any versioned && (b || (trackedHeader f).isSome)

-- Steps that leave the addresses alone and the version, too, once it is known.
structure Frame (asked : Bool) (c c' : Cube) : Prop where
  addr  : c'.addr = c.addr
  ver   : c'.ver = c.ver ∨ c.ver = none
  known : c'.ver.isSome = (c.ver.isSome || asked)

theorem mem_guardNeg {neg : Bool} {o : Option Cube} (hc : c' ∈ guardNeg neg o) : o = some c' := by
  rw [guardNeg] at hc
  split_ifs at hc
  case pos => exact absurd hc List.not_mem_nil
  case neg => exact Option.mem_toList.mp hc

theorem mem_branchBool {slot : Option Bool} {f : Bool → List Cube}
    (hc : c' ∈ branchBool insn test c slot f) : c' = c ∨ ∃ b, c' ∈ f b := by
  rw [branchBool] at hc
  split at hc
  case _   => exact absurd hc List.not_mem_nil
  case _   => exact .inl (List.mem_singleton.mp hc)
  case _   => exact .inr ⟨_, hc⟩

-- What is known of a value that is 0 or 1 only changes if the test tells the two apart.
theorem applyBool_eq_some {slot o : Option Bool} {neg : Bool}
    (h : applyBool slot test arg neg = some o) (ht : test ≠ .other) :
    if decide (test.SatSigned neg 0 arg) != decide (test.SatSigned neg 1 arg) then o.isSome
    else o = slot := by
  have hp v : pfTest test (boolCmp v arg neg) = decide (test.SatSigned neg v.toNat arg) :=
    pfTest_signed ht
  simp only [applyBool, hp, Bool.toNat_false, Bool.toNat_true] at h
  generalize decide (test.SatSigned neg 0 arg) = can₀ at h ⊢
  generalize decide (test.SatSigned neg 1 arg) = can₁ at h ⊢
  cases can₀ <;> cases can₁ <;> simp_all <;> simp [← h.right]

theorem tells_eq (ht : insn.test ≠ .other)
    (ht' : test = insn.test ∨ test = negateTest insn.test) : tells insn =
      (decide (test.SatSigned insn.neg 0 (insn.arg.word 0).toNat) !=
        decide (test.SatSigned insn.neg 1 (insn.arg.word 0).toNat)) := by
  rcases ht' with rfl | rfl
  case inl => rfl
  case inr => simp [tells, negateTest_satSigned ht]

namespace Frame

variable {k k' : Bool}

theorem refl : Frame false c c :=
  ⟨rfl, .inl rfl, by simp⟩

theorem known_refl (h : c.ver ≠ none) : Frame k c c :=
  ⟨rfl, .inl rfl, by simp [Option.isSome_iff_ne_none.mpr h]⟩

theorem trans (h₁ : Frame k c c') (h₂ : Frame k' c' c'') : Frame (k || k') c c'' where
  addr  := h₂.addr.trans h₁.addr
  ver   := by
    have := h₁.ver
    have := h₂.ver
    grind
  known := by rw [h₂.known, h₁.known, Bool.or_assoc]

theorem of_eq (hs : c'.src = c.src) (hd : c'.dst = c.dst) (hv : c'.ver = c.ver) :
    Frame false c c' where
  addr  := by
    funext useSrc
    cases useSrc <;> simp [Cube.addr, hs, hd]
  ver   := .inl hv
  known := by simp [hv]

theorem widen : Frame false c c.widen :=
  of_eq rfl rfl rfl

theorem setVer (h : c.setVer ver = some c') : Frame true c c' := by
  rw [Cube.setVer] at h
  split_ifs at h with hv
  cases h
  refine ⟨rfl, ?_, by simp⟩
  grind

theorem setDir {d : Dir} (h : c.setDir d = some c') : Frame false c c' := by
  rw [Cube.setDir_eq_some h]
  exact of_eq rfl rfl rfl

-- Components other than the version and the addresses.
theorem component {β : Type} {o : Option β} {upd : β → Cube} (h : o.map upd = some c')
    (hu : ∀ r, Frame false c (upd r)) : Frame false c c' := by
  obtain ⟨r, _, rfl⟩ := Option.map_eq_some_iff.mp h
  exact hu r

theorem withProto (h : c.withProto test arg = some c') : Frame false c c' :=
  component h fun _ => of_eq rfl rfl rfl

theorem withTtl (h : c.withTtl test arg = some c') : Frame false c c' :=
  component h fun _ => of_eq rfl rfl rfl

theorem withPort {useSrc : Bool} (h : c.withPort useSrc test arg = some c') : Frame false c c' := by
  cases useSrc <;> exact component h fun _ => of_eq rfl rfl rfl

theorem setProto (h : c.setProto proto = some c') : Frame false c c' :=
  component h fun _ => of_eq rfl rfl rfl

theorem assume (ha : c.assume h = some c') : Frame (versioned h) c c' := by
  cases h <;> simp only [Cube.assume, Option.bind_eq_bind, Option.bind_eq_some_iff] at ha
  case ip | ipv6 => exact setVer ha
  case tcp | udp => exact setProto ha
  case icmp | icmpv6 =>
    obtain ⟨_, hv, hp⟩ := ha
    exact (setVer hv).trans (setProto hp)

theorem requireHeader {f : Field} (hr : c.requireHeader f = some c') :
    Frame (f.header.any versioned) c c' := by
  rw [Cube.requireHeader] at hr
  split at hr
  case _ hf => simpa [hf] using assume hr
  case _ hf => simpa [hf, ← Option.some.inj hr] using refl

theorem withoutIcmp {altVer : IpVer} (hc : c' ∈ c.withoutIcmp ver altVer proto) : Frame true c c' := by
  simp only [Cube.withoutIcmp, List.mem_append, Option.mem_toList, Option.bind_eq_bind,
    Option.bind_eq_some_iff] at hc
  rcases hc with hv | ⟨_, hv, hp⟩
  case inl => exact setVer hv
  case inr => exact (setVer hv).trans (withProto hp)

theorem without (hc : c' ∈ c.without h) : Frame (versioned h) c c' := by
  cases h
  case ip | ipv6     => exact setVer <| Option.mem_toList.mp hc
  case tcp | udp     => exact withProto <| Option.mem_toList.mp hc
  case icmp | icmpv6 => exact withoutIcmp hc

theorem singleton (h : c' ∈ [c'']) (hc : Frame k c c'') : Frame k c c' :=
  List.mem_singleton.mp h ▸ hc

theorem branchBool {slot : Option Bool} {f : Bool → List Cube} (ht : insn.test ≠ .other)
    (ht' : test = insn.test ∨ test = negateTest insn.test)
    (hc : c' ∈ branchBool insn test c slot f) (hs : k → slot.isSome → c.ver.isSome)
    (hf : ∀ b, c' ∈ f b → Frame k c c') : Frame (k && tells insn) c c' := by
  have hne : test ≠ .other := ht'.elim (· ▸ ht) (· ▸ negateTest_ne_other ht)
  rw [Prefilter.branchBool] at hc
  rw [tells_eq ht ht']
  split at hc
  case _     => exact absurd hc List.not_mem_nil
  case _ ha  =>
    have := applyBool_eq_some ha hne
    split_ifs at this with h
    case pos => simp at this
    case neg =>
      rw [Bool.eq_false_of_not_eq_true h, Bool.and_false]
      exact singleton hc refl
  case _ b ha =>
    have := applyBool_eq_some ha hne
    have hf := hf b hc
    split_ifs at this with h
    case pos => simpa [h] using hf
    case neg =>
      rw [Bool.eq_false_of_not_eq_true h, Bool.and_false]
      refine ⟨hf.addr, hf.ver, ?_⟩
      rw [hf.known]
      cases k
      case false => rfl
      case true  => simp [hs rfl (by simp [← this])]

theorem ite {φ : Prop} [Decidable φ] (hc : c' ∈ if φ then [c] else []) : Frame false c c' := by
  split_ifs at hc
  case pos => exact singleton hc refl
  case neg => nomatch hc

end Frame

namespace Cube

variable {useSrc : Bool} {a : PfAddr} {w : Words}

@[simp]
theorem addr_setAddr : (c.setAddr useSrc a).addr = Function.update c.addr useSrc a := by
  funext useSrc'
  cases useSrc <;> cases useSrc' <;> rfl

@[simp]
theorem ver_setAddr : (c.setAddr useSrc a).ver = c.ver := by
  cases useSrc <;> rfl

@[simp]
theorem dir_setAddr : (c.setAddr useSrc a).dir = c.dir := by
  cases useSrc <;> rfl

theorem withAddr_eq_some (h : c.withAddr useSrc test w = some c') :
    ∃ a e, (c.addr useSrc).apply test w = some (a, e) ∧ c'.addr = Function.update c.addr useSrc a ∧
      c'.ver = c.ver ∧ c'.dir = c.dir := by
  obtain ⟨⟨a, e⟩, ha, rfl⟩ := Option.map_eq_some_iff.mp h
  exact ⟨a, e, ha, addr_setAddr, ver_setAddr, dir_setAddr⟩

end Cube

-- The address fields of the IP headers.
def ipAddrField (v4 useSrc : Bool) : Field :=
  match v4, useSrc with
  | true,  true  => .ipSrcAddr
  | true,  false => .ipDstAddr
  | false, true  => .ipv6SrcAddr
  | false, false => .ipv6DstAddr

-- What one outcome of a test on a packet layer can do to the version and the addresses of a cube.
inductive Step (insn : Insn) (b : Bool) (c c' : Cube) : Prop
  | frame (hc : Frame (settles insn b) c c')
  | ip {c₁ : Cube} {v4 useSrc : Bool} {a : PfAddr} {e : Bool} (hf : insn.field = ipAddrField v4 useSrc)
    (hn : insn.neg = false) (hc : Frame true c c₁) (hv : c₁.ver = some (if v4 then .v4 else .v6))
    (hv' : c'.ver = c₁.ver)
    (ha : (if v4 then (c₁.addr useSrc).clampV4 else c₁.addr useSrc).apply
      (if b then insn.test else negateTest insn.test) insn.arg = some (a, e))
    (hu : c'.addr = Function.update c₁.addr useSrc a)
  -- The local or remote address of a cube. If its version is not known, it is taken from the argument
  -- of an equality test, and any other test is dropped.
  | endpoint {isLocal useSrc : Bool} {a : PfAddr} {e : Bool} (hf : insn.field = addrField isLocal)
    (hn : insn.neg = false) (hb : b) (hd : ∀ p, c'.Mem p → p.useSrc isLocal = useSrc)
    (hv : if c.ver = none then
        c'.ver = some (if insn.arg.isMappedIpv4 then .v4 else .v6) ∧ insn.test = .eq
      else c'.ver = c.ver)
    (ha : (c.addr useSrc).apply insn.test insn.arg = some (a, e))
    (hu : c'.addr = Function.update c.addr useSrc a)
  | drop {isLocal useSrc : Bool} (hf : insn.field = addrField isLocal) (hn : c.ver = none)
    (ht : insn.test ≠ .eq) (hv : c'.ver = none) (hu : c'.addr = Function.update c.addr useSrc .full)

namespace Step

variable {positive : Bool} {recurse : Cube → List Cube}

theorem branchField_presence (ht : insn.test ≠ .other)
    (ht' : test = insn.test ∨ test = negateTest insn.test) (hp : isPresence insn.field)
    (hc : c' ∈ branchField insn test positive c recurse) : Frame (settles insn b) c c' := by
  have of_false (h : Frame (false && tells insn) c c') : Frame false c c' := by simpa using h
  have of_true (h : Frame (true && tells insn) c c') : Frame (tells insn) c c' := by simpa using h
  obtain ⟨f, test', _, _, neg, arg⟩ := insn
  cases f <;> simp [isPresence] at hp
  case event =>
    simp only [branchField] at hc
    exact .ite hc
  case inbound | outbound | loopback =>
    exact of_false <| .branchBool ht ht' hc (by simp) fun _ hc => .singleton hc <| .of_eq rfl rfl rfl
  case ip | ipv6 =>
    exact of_true <| .branchBool ht ht' hc (by simp) fun _ hc => .setVer <| Option.mem_toList.mp hc
  case tcp | udp =>
    refine of_false <| .branchBool ht ht' hc (by simp) fun b hc => ?_
    cases b
    case false => exact .withProto <| Option.mem_toList.mp hc
    case true  => exact .setProto <| Option.mem_toList.mp hc
  case icmp | icmpv6 =>
    refine of_true <| .branchBool ht ht' hc (by simp) fun b hc => ?_
    cases b
    case false => exact .withoutIcmp hc
    case true  =>
      simp only [Option.bind_eq_bind, ↓reduceIte, Option.mem_toList, Option.bind_eq_some_iff] at hc
      obtain ⟨_, hp, hv⟩ := hc
      exact .trans (.setProto hp) (.setVer hv)

theorem branchTtl (hc : c' ∈ branchTtl insn test c) : Frame false c c' := by
  rw [Prefilter.branchTtl] at hc
  split_ifs at hc
  case pos => exact .withTtl <| mem_guardNeg hc
  case neg => exact .singleton hc .widen

theorem neg_of_mem_guardNeg {neg : Bool} {o : Option Cube} (hc : c' ∈ guardNeg neg o) :
    neg = false := by
  cases neg
  case false => rfl
  case true  => exact absurd hc List.not_mem_nil

theorem branchAddr {c₀ : Cube} (v4 useSrc : Bool) (h₀ : Frame true c₀ c)
    (hf : insn.field = ipAddrField v4 useSrc) (hv : c.ver = some (if v4 then .v4 else .v6))
    (hc : c' ∈ branchAddr insn (if b then insn.test else negateTest insn.test) c useSrc v4) :
    Step insn b c₀ c' := by
  obtain ⟨a, e, ha, hu, hv', _⟩ := Cube.withAddr_eq_some <| mem_guardNeg hc
  have hn := neg_of_mem_guardNeg hc
  cases v4
  case false => exact .ip hf hn h₀ hv hv' ha hu
  case true  =>
    simp only [↓reduceIte, Cube.addr_setAddr, Function.update_self, Function.update_idem,
      Cube.ver_setAddr] at ha hu hv'
    exact .ip hf hn h₀ hv hv' ha hu

-- `c₀` is the cube before its header was required.
theorem branchField_tracked {c₀ : Cube} (ht : insn.test ≠ .other)
    (h₀ : Frame (versioned h) c₀ c) (hf : trackedHeader insn.field = some h) (hk : c.knows h)
    (hc : c' ∈ branchField insn (if b then insn.test else negateTest insn.test) positive c recurse) :
    Step insn b c₀ c' := by
  have hs : settles insn b = versioned h := by
    rw [settles]
    split
    case h_7 => simp [trackedHeader_header hf, hf]
    all_goals
      rename_i hi
      simp [hi, trackedHeader] at hf
  have rest (h' : Frame false c c') : Step insn b c₀ c' :=
    .frame (by simpa [hs] using h₀.trans h')
  have ht' : (if b then insn.test else negateTest insn.test) = insn.test ∨
      (if b then insn.test else negateTest insn.test) = negateTest insn.test := by
    cases b <;> simp
  obtain ⟨f, test', _, _, neg, arg⟩ := insn
  cases f <;> cases hf
  case ipTtl | ipv6HopLimit => exact rest <| branchTtl hc
  case ipProtocol => exact rest <| .withProto <| mem_guardNeg hc
  case tcpSrcPort | udpSrcPort | icmpType | icmpv6Type =>
    exact rest <| .withPort <| mem_guardNeg hc
  case tcpDstPort | udpDstPort | icmpCode | icmpv6Code =>
    exact rest <| .withPort <| mem_guardNeg hc
  case tcpFin | tcpSyn | tcpRst | tcpPsh | tcpAck | tcpUrg =>
    have hc : Frame (false && _) c c' := .branchBool ht ht' hc (by simp) fun _ hc =>
      .singleton hc <| .of_eq rfl rfl rfl
    exact rest (by simpa using hc)
  all_goals have hv := of_decide_eq_true hk
  case ipSrcAddr   => exact branchAddr true true h₀ rfl hv hc
  case ipDstAddr   => exact branchAddr true false h₀ rfl hv hc
  case ipv6SrcAddr => exact branchAddr false true h₀ rfl hv hc
  case ipv6DstAddr => exact branchAddr false false h₀ rfl hv hc

theorem branchEndpointAddr {isLocal : Bool} {d : Dir} (hf : insn.field = addrField isLocal)
    (hneg : insn.neg = false) (hb : b)
    (hc : c' ∈ branchEndpointAddr insn insn.test true c isLocal d) : Step insn b c c' := by
  simp only [Prefilter.branchEndpointAddr, List.mem_flatMap, Option.mem_toList, Bool.not_true,
    Bool.false_eq_true, false_and, ↓reduceIte, List.mem_map] at hc
  obtain ⟨alt, halt, alt', halt', hc⟩ := hc
  have ⟨ha, hv, hd⟩ : alt.addr = c.addr ∧ alt.ver = c.ver ∧ alt.dir = some d := by
    rw [Cube.setDir_eq_some halt]
    exact ⟨rfl, rfl, rfl⟩
  have side (p : PfPkt) (hp : d = p.direction) :
      p.useSrc isLocal = decide (d = if isLocal then Dir.outbound else .inbound) := by
    rw [PfPkt.useSrc, hp]
  generalize decide (d = if isLocal then Dir.outbound else .inbound) = useSrc at hc halt' side
  obtain ⟨a, e, ha', hu, hv', hd'⟩ := Cube.withAddr_eq_some halt'
  rw [ha] at ha' hu
  rw [hv] at hv' hc
  rw [hd] at hd'
  by_cases hn : c.ver = none
  case neg =>
    rw [if_pos hn] at hc
    subst hc
    exact .endpoint hf hneg hb (fun p hm => side p (hm.dir d hd')) (by rwa [if_neg hn]) ha' hu
  case pos =>
    rw [if_neg (not_not.mpr hn)] at hc
    by_cases ht : insn.test = .eq
    case pos =>
      rw [if_pos ht] at hc
      subst hc
      exact .endpoint hf hneg hb (fun p hm => side p (hm.dir d hd')) (by simp [hn, ht]) ha' hu
    case neg =>
      rw [if_neg ht] at hc
      subst hc
      have hu : (alt'.setAddr useSrc .full).addr = Function.update c.addr useSrc .full := by
        rw [Cube.addr_setAddr, hu, Function.update_idem]
      exact .drop hf hn ht (Cube.ver_setAddr.trans <| hv'.trans hn) hu

theorem branchEndpointPort {isLocal : Bool} {d : Dir}
    (hc : c' ∈ branchEndpointPort insn test c isLocal d) : Frame false c c' := by
  simp only [Prefilter.branchEndpointPort, List.mem_flatMap, Option.mem_toList] at hc
  obtain ⟨alt, hd, hp⟩ := hc
  exact .trans (.setDir hd) (.withPort hp)

theorem branchPort {isLocal : Bool} (hr : ∀ {c c'}, c' ∈ recurse c → Frame false c c')
    (hc : c' ∈ branchPort insn test c recurse isLocal) : Frame false c c' := by
  simp only [Prefilter.branchPort] at hc
  split_ifs at hc
  case pos => exact absurd hc List.not_mem_nil
  case pos =>
    simp only [List.mem_append, List.mem_flatMap, Option.mem_toList, Option.bind_eq_bind,
      Option.bind_eq_some_iff, Option.some.injEq] at hc
    rcases hc with (⟨_, hp, hc⟩ | ⟨_, hp, hc⟩) | ⟨_, ht, _, hu, rfl⟩
    case inl.inl => exact .trans (.setProto hp) (hr hc)
    case inl.inr => exact .trans (.setProto hp) (hr hc)
    case inr     => exact .trans (.withProto ht) <| .trans (.withProto hu) .widen
  case neg =>
    rcases List.mem_append.mp hc with hc | hc
    case inl => exact branchEndpointPort hc
    case inr => exact branchEndpointPort hc

theorem pfBranchFrom_tracked {fuel : Nat} (ht : insn.test ≠ .other)
    (hf : trackedHeader insn.field = some h) (hc : c' ∈ pfBranchFrom false (fuel + 1) insn b c) :
    Step insn b c c' := by
  have assumed (hc : c' ∈ (c.assume h).toList.flatMap fun c => branchField insn
      (if b then insn.test else negateTest insn.test) b c (pfBranchFrom false fuel insn b)) :
      Step insn b c c' := by
    simp only [List.mem_flatMap, Option.mem_toList] at hc
    obtain ⟨c₁, ha, hc⟩ := hc
    exact branchField_tracked ht (.assume ha) hf (Cube.assume_knows ha) hc
  have known (hk : c.knows h) : Frame (versioned h) c c := by
    cases h <;> simp only [Cube.knows, decide_eq_true_eq] at hk
    case tcp | udp => exact .refl
    all_goals exact .known_refl (by simp [hk])
  have absent (hc : c' ∈ c.without h) (hb : b = false) : Step insn b c c' := by
    have hs : settles insn b = versioned h := by
      rw [settles]
      split
      case h_7 => simp [trackedHeader_header hf, hf]
      all_goals
        rename_i hi
        simp [hi, trackedHeader] at hf
    exact .frame (hs ▸ .without hc)
  rw [pfBranchFrom.tracked hf] at hc
  cases b
  case true  => exact assumed hc
  case false =>
    simp only [Bool.false_eq_true, ↓reduceIte] at hc
    split_ifs at hc with hk
    case pos => exact branchField_tracked ht (known hk) hf hk hc
    case neg => exact (List.mem_append.mp hc).elim (absent · rfl) assumed

theorem pfBranchFrom_port {fuel : Nat} {isLocal : Bool} (hf : insn.field = portField isLocal)
    (hc : c' ∈ pfBranchFrom false fuel insn b c) : Frame false c c' := by
  induction fuel generalizing b c c'
  case zero => nomatch hc
  case succ fuel ih =>
    rw [pfBranchFrom.port hf] at hc
    split_ifs at hc
    case pos => exact branchPort ih hc
    case neg => exact .singleton hc .widen

theorem of_pfBranch (ht : insn.test ≠ .other) (hc : c' ∈ pfBranch false insn b c) :
    Step insn b c c' := by
  have same (h : Frame false c c') (hs : settles insn b = false) : Step insn b c c' :=
    .frame (hs ▸ h)
  rw [pfBranch] at hc
  cases treatment insn.field
  case zero hz =>
    simp only [pfBranchFrom, hz, ↓reduceIte] at hc
    split_ifs at hc
    case pos => exact same (.singleton hc .refl) (by simp [settles, hz, Wd.Field.header])
    case neg => exact absurd hc List.not_mem_nil
  case presence hp =>
    rw [pfBranchFrom.presence hp] at hc
    exact .frame <| branchField_presence ht (by cases b <;> simp) hp hc
  case tracked hf => exact pfBranchFrom_tracked ht hf hc
  case addr l hf =>
    rw [pfBranchFrom.addr hf, branchEndpoint] at hc
    split_ifs at hc with hb hn
    case pos => exact absurd hc List.not_mem_nil
    case neg =>
      have hn : insn.neg = false := by simpa using hn
      exact (List.mem_append.mp hc).elim (branchEndpointAddr hf hn hb) (branchEndpointAddr hf hn hb)
    case neg =>
      exact same (.singleton hc .widen) (by cases l <;> simp [settles, hf, addrField, hb])
  case port l hf =>
    exact same (pfBranchFrom_port hf hc)
      (by cases l <;> simp [settles, hf, portField, Wd.Field.header])
  case widen hu he hw =>
    have hs : settles insn b = (insn.field.header.any versioned && b) := by
      obtain ⟨_, hp, hf⟩ := hu
      rw [settles]
      split
      case h_7 => simp [hf]
      case h_5 hi => exact absurd hi (he true).left
      case h_6 hi => exact absurd hi (he false).left
      all_goals
        rename_i hi
        simp [hi, isPresence] at hp
    rw [pfBranchFrom.untracked hu] at hc
    cases b
    case true =>
      simp only [↓reduceIte, hw rfl, List.mem_flatMap, Option.mem_toList] at hc
      obtain ⟨_, hr, hc⟩ := hc
      have h := Frame.trans (.requireHeader hr) (.singleton hc .widen)
      exact .frame (by simpa [hs] using h)
    case false => exact same (.singleton hc .widen) (by simp [hs])

variable {p : PfPkt}

theorem known (h : Step insn b c c') : c'.ver.isSome = (c.ver.isSome || settles insn b) := by
  cases h
  case frame hc => exact hc.known
  case ip v4 useSrc _ _ hf _ _ hv hv' _ _ =>
    have hs : settles insn b = true := by
      cases v4 <;> cases useSrc <;>
        simp [settles, hf, ipAddrField, Wd.Field.header, versioned, trackedHeader]
    simp [hs, hv', hv]
  case endpoint l _ _ _ hf _ hb _ hv _ _ =>
    have hs : settles insn b = decide (insn.test = .eq) := by
      cases l <;> simp [settles, hf, addrField, hb]
    by_cases hn : c.ver = none
    case pos =>
      rw [if_pos hn] at hv
      simp [hs, hv]
    case neg =>
      rw [if_neg hn] at hv
      simp [hv, Option.isSome_iff_ne_none.mpr hn]
  case drop l _ hf hn ht hv _ =>
    have hs : settles insn b = false := by
      cases l <;> simp [settles, hf, addrField, ht]
    simp [hs, hn, hv]

end Step

-- The point that a test excludes from a range.
theorem PfAddr.mem_excl_apply {a a' : PfAddr} {x w : Words} {e : Bool}
    (h : a.apply test w = some (a', e)) (hx : x ∈ a'.excl) :
    x ∈ a.excl ∨ test = .neq ∧ x = w ∧ a.lo.value ≤ w.value ∧ w.value ≤ a.hi.value := by
  have finish {a₁ : PfAddr} (h : a₁.finish = some (a', e)) (hx₁ : a₁.excl = a.excl) :
      x ∈ a.excl := by
    simp only [PfAddr.finish] at h
    split_ifs at h <;> cases h
    case _ => simp at hx
    case _ => exact hx₁ ▸ hx
  cases test <;> simp only [PfAddr.apply, Words.cmp128_eq_lt, Words.cmp128_eq_gt, Words.cmp128_eq_eq] at h
  case leq | geq => exact .inl (finish h rfl)
  case lt | gt =>
    split_ifs at h
    exact .inl (finish h rfl)
  case other =>
    cases h
    exact .inl hx
  case eq =>
    split_ifs at h
    cases h
    simp at hx
  case neq =>
    split_ifs at h with ho <;> cases h
    case _ => exact .inl hx
    case _ => exact .inl hx
    case _ => exact .inl hx
    case _ => exact .inl hx
    case _ =>
      obtain rfl := Option.some.inj hx
      exact .inr ⟨rfl, rfl, by omega, by omega⟩

-- No excluded address is taken for that of an IPv4 packet, of which only the lowest word counts.
def Cube.Spares (c : Cube) (p : PfPkt) : Prop :=
  p.ver = .v4 → ∀ useSrc, ∀ x ∈ (c.addr useSrc).excl,
    x.isMappedIpv4 ∨ x.word 0 ≠ (p.addr useSrc).word 0

-- The tests on the local or remote address that lose a packet which passes them. If the version is
-- not known, the argument is taken for an IPv4 address although the packet is IPv6.
def Misguessed (p : PfPkt) (insn : Insn) (known : Bool) : Prop :=
  insn.neg = false ∧ ∃ isLocal, insn.field = addrField isLocal ∧ known = false ∧ insn.test = .eq ∧
    insn.arg.isMappedIpv4 ∧ p.ver = .v6 ∧ p.addr (p.useSrc isLocal) = insn.arg

-- If it is known, an IPv4 rule keeps the lowest word of an IPv6 argument.
def Blotted (p : PfPkt) (insn : Insn) (known : Bool) : Prop :=
  insn.neg = false ∧ ∃ isLocal, insn.field = addrField isLocal ∧ known = true ∧ insn.test = .neq ∧
    ¬insn.arg.isMappedIpv4 ∧ p.ver = .v4 ∧ (p.addr (p.useSrc isLocal)).word 0 = insn.arg.word 0

namespace Step

variable {p : PfPkt}

theorem spares (h : Step insn b c c') (hm : c'.Mem p) (hs : c.Spares p)
    (ok : ¬Blotted p insn c.ver.isSome) : c'.Spares p := by
  intro h4 s x hx
  have hs := hs h4
  cases h
  case frame hc => exact hs s x (hc.addr ▸ hx)
  case ip v4 useSrc a _ _ hn hc hv hv' ha hu =>
    obtain rfl : v4 = true := by
      have := (hm.ver _ (hv'.trans hv)).trans h4
      cases v4 <;> simp_all
    rw [hu, hc.addr, Function.update_apply] at hx
    split_ifs at hx with he
    case neg => exact hs s x hx
    case pos =>
      subst he
      rcases PfAddr.mem_excl_apply ha hx with hx | ⟨_, rfl, hl, hh⟩
      case inl => exact hs s x (hc.addr ▸ hx)
      case inr =>
        refine .inl (Words.isMappedIpv4_iff.mpr ?_)
        simp only [↓reduceIte, PfAddr.clampV4, Words.cmp128_eq_lt, Words.cmp128_eq_gt,
          apply_ite Words.value, value_lo4, value_hi4] at hl hh
        split_ifs at hl hh <;> omega
  case endpoint l useSrc a _ hf hn _ hd hv ha hu =>
    rw [hu, Function.update_apply] at hx
    split_ifs at hx with he
    case neg => exact hs s x hx
    case pos =>
      subst he
      rcases PfAddr.mem_excl_apply ha hx with hx | ⟨ht, rfl, _⟩
      case inl => exact hs s x hx
      case inr =>
        have hk : c.ver ≠ none := by
          intro hk
          simp [hk, ht] at hv
        refine or_iff_not_imp_left.mpr fun hnm he => ok ⟨hn, l, hf, ?_, ht, hnm, h4, ?_⟩
        case refine_1 => exact Option.isSome_iff_ne_none.mpr hk
        case refine_2 => rw [hd p hm, he]
  case drop _ _ _ _ _ hu =>
    rw [hu, Function.update_apply] at hx
    split_ifs at hx
    case pos => simp [PfAddr.full] at hx
    case neg => exact hs s x hx

theorem mem_apply {a a' : PfAddr} {v arg : Words} {e : Bool} (h : a.apply test arg = some (a', e))
    (hv : a.Mem v) (hs : test.Sat v.value arg.value) : a'.Mem v := by
  obtain ⟨_, _, h', hm⟩ := PfAddr.exists_apply hv hs
  cases h.symm.trans h'
  exact hm

-- What the answer to a test on an IP address says of the address.
theorem sat_of_reads {v4 useSrc : Bool} (hr : Reads p insn (some b)) (ht : insn.test ≠ .other)
    (hf : insn.field = ipAddrField v4 useSrc) (hn : insn.neg = false)
    (hv : p.ver = if v4 then .v4 else .v6) :
    (v4 → (p.addr useSrc).isMappedIpv4) ∧
    (if b then insn.test else negateTest insn.test).Sat (p.addr useSrc).value insn.arg.value := by
  have hh : trackedHeader insn.field = some (if v4 then .ip else .ipv6) := by
    cases v4 <;> cases useSrc <;> simp [hf, ipAddrField, trackedHeader]
  have hval : p.value insn.field = (p.addr useSrc).value ∧ operand insn = insn.arg.value := by
    cases v4 <;> cases useSrc <;> simp [hf, ipAddrField, PfPkt.value, PfPkt.addr, operand]
  have hhas : p.Has (if v4 then .ip else .ipv6) := by
    cases v4 <;> exact hv
  obtain ⟨hshow, hb⟩ := (hr.tracked _ hh (by simp [hn]) b).mp rfl
  rw [and_iff_right hhas, hval.left, hval.right, hn] at hb
  constructor
  case left =>
    rintro rfl
    cases useSrc <;> simp only [hf, ipAddrField, PfPkt.Shows] at hshow <;> exact hshow hv
  case right =>
    cases b
    case true  => exact hb.mp rfl
    case false => exact (negateTest_sat ht).mpr fun h => absurd (hb.mpr h) (by simp)

-- Packets that only differ in their addresses and give the same answer stay together.
theorem mem_moved {src dst : Words} (h : Step insn b c c') (ht : insn.test ≠ .other) (hm : c'.Mem p)
    (hm' : c.Mem (p.moved src dst)) (hr : Reads (p.moved src dst) insn (some b)) :
    c'.Mem (p.moved src dst) := by
  have ha := (Cube.mem_iff_anywhere.mp hm').right
  refine Cube.mem_iff_anywhere.mpr
    ⟨Cube.mem_anywhere_moved.mpr (Cube.mem_iff_anywhere.mp hm).left, fun s => ?_⟩
  cases h
  case frame hc => exact hc.addr ▸ ha s
  case ip v4 useSrc a e hf hn hc hv hv' happ hu =>
    obtain ⟨hmap, hsat⟩ := sat_of_reads hr ht hf hn (hm.ver _ (hv'.trans hv)).symm
    rw [hu, hc.addr, Function.update_apply]
    split_ifs with he
    case neg => exact ha s
    case pos =>
      subst he
      rw [hc.addr] at happ
      refine mem_apply happ ?_ hsat
      cases v4
      case false => exact ha s
      case true  => exact PfAddr.mem_clampV4.mpr ⟨ha s, hmap rfl⟩
  case endpoint l useSrc a e hf hn hb hd hv happ hu =>
    rw [hu, Function.update_apply]
    split_ifs with he
    case neg => exact ha s
    case pos =>
      subst he
      have hsat := ((hr.addr l hf hn b).mp rfl).mp hb
      rw [show (p.moved src dst).useSrc l = s from hd p hm] at hsat
      exact mem_apply happ (ha s) hsat
  case drop _ _ _ _ _ hu =>
    rw [hu, Function.update_apply]
    split_ifs
    case pos => exact PfAddr.mem_full
    case neg => exact ha s

end Step

end Prefilter
