import EbpfDivert.Handle.Rules
import EbpfDivert.Prefilter.Theorems.Lower

open Shared Prefilter Kernel

-- A rule that says by itself which packets it matches and nothing about what to do with them.
structure Shared.RuleCommon.Bare (r : RuleCommon) : Prop where
  enabled  : Flags.has r.matchMask matchEnabled
  notFalse : Flags.has r.matchMask matchFalse = false
  noLpm    : Flags.has r.matchMask matchLpmTrie = false
  noSniff  : Flags.has r.matchMask matchSniff = false
  noDrop   : Flags.has r.matchMask matchDrop = false

namespace Prefilter

variable {α : Type} {zero : α} {ip mask : AddrCode → α} {c : Cube} {cs : List Cube}
variable {object : List Wd.Insn} {f : Wd.Filter} {res out out' : PfResult}

theorem emit_bare : (emit zero ip mask c).1.Bare := by
  constructor <;> simp [emit, encodeCommon]

-- Lowered rules are bare and fit into the tables.
structure PfResult.Bare (res : PfResult) : Prop where
  v4     : ∀ r ∈ res.v4, r.Bare
  v6     : ∀ r ∈ res.v6, r.Bare
  v4_len : res.v4.length ≤ maxRules
  v6_len : res.v6.length ≤ maxRules

namespace PfResult.Bare

theorem empty : PfResult.empty.Bare := by
  constructor <;> simp [PfResult.empty]

theorem matchAll : PfResult.matchAll.Bare := by
  constructor
  case v4 | v6 =>
    simp only [PfResult.matchAll, List.mem_singleton, forall_eq]
    constructor <;> simp
  case v4_len | v6_len => decide

theorem addV4 (hb : out.Bare) (h : out.addV4 c = some out') : out'.Bare := by
  obtain ⟨_, rfl⟩ | ⟨_, hl, rfl⟩ := PfResult.addV4_cases h
  case inl => exact hb
  case inr =>
    refine { hb with v4 := ?_, v4_len := ?_ }
    case refine_1 =>
      refine List.forall_mem_append.mpr ⟨hb.v4, fun r hr => ?_⟩
      rw [List.mem_singleton.mp hr]
      exact emit_bare
    case refine_2 =>
      have := hb.v4_len
      simp only [List.length_append, List.length_singleton]
      omega

theorem addV6 (hb : out.Bare) (h : out.addV6 c = some out') : out'.Bare := by
  obtain ⟨_, rfl⟩ | ⟨_, hl, rfl⟩ := PfResult.addV6_cases h
  case inl => exact hb
  case inr =>
    refine { hb with v6 := ?_, v6_len := ?_ }
    case refine_1 =>
      refine List.forall_mem_append.mpr ⟨hb.v6, fun r hr => ?_⟩
      rw [List.mem_singleton.mp hr]
      exact emit_bare
    case refine_2 =>
      have := hb.v6_len
      simp only [List.length_append, List.length_singleton]
      omega

theorem pfEmitRules (hb : out.Bare) (h : pfEmitRules cs out = some out') : out'.Bare :=
  pfEmitRules_invariant h hb (fun hb => { hb with }) addV4 addV6

end PfResult.Bare

theorem pfLowerObject_bare : (pfLowerObject object).Bare := by
  rw [pfLowerObject]
  split_ifs
  case pos => exact .matchAll
  case neg =>
    cases h : pfEmitRules (pfWalkAll object false).cubes .empty
    case none   => exact .matchAll
    case some _ => exact .pfEmitRules .empty h

theorem pfLower_bare (h : pfLower f = some res) : res.Bare := by
  rw [pfLower] at h
  split_ifs at h
  cases h
  exact pfLowerObject_bare

end Prefilter

namespace Handle

variable {α : Type} {a mm : BitVec 16} {r zero : FilterRule α} {rules : List (FilterRule α)}
variable {res : PfResult} {pkt : ParsedPacket} {direction : Dir} {h h' : Handle} {t : Tables}

-- What `load_rules` adds to a mask is no condition.
def IsAction (a : BitVec 16) : Prop :=
  a ∈ [0, matchSniff, matchDrop]

theorem has_action_sniff {flags : BitVec 64} {exact : Bool} :
    Flags.has (action flags exact) matchSniff = Flags.has flags flagSniff := by
  rw [action]
  split_ifs with hs hd <;> simp [hs]

-- `ebpfdivert_open` does not allow both.
theorem sniff_drop (h : Handle) (hs : Flags.has h.flags flagSniff) :
    Flags.has h.flags flagDrop = false := by
  have := h.flags_valid
  simp only [validFlags, Bool.and_eq_true, Bool.not_eq_true', Bool.and_eq_false_iff] at this
  simpa [hs] using this.1.1.1.2

theorem drop_sniff (h : Handle) (hd : Flags.has h.flags flagDrop) :
    Flags.has h.flags flagSniff = false := by
  by_contra hs
  simp [h.sniff_drop (by simpa using hs)] at hd

theorem has_action_drop (h : Handle) {exact : Bool} :
    Flags.has (action h.flags exact) matchDrop = (Flags.has h.flags flagDrop && exact) := by
  rw [action]
  split_ifs with hs hd
  case pos => simp [h.sniff_drop hs]
  case pos => simp [hd]
  case neg => simpa using hd

theorem action_isAction {flags : BitVec 64} {exact : Bool} : IsAction (action flags exact) := by
  rw [action]
  split_ifs <;> simp [IsAction]

theorem IsAction.has (ha : IsAction a) {i : Nat} (hi : i < 16) (h₉ : i ≠ 9) (h₁₀ : i ≠ 10) :
    Flags.has (mm ||| a) (Flags.bit 16 i) = Flags.has mm (Flags.bit 16 i) := by
  simp only [IsAction, List.mem_cons, List.not_mem_nil, or_false] at ha
  rcases ha with rfl | rfl | rfl <;> simp [Flags.has_bit hi, h₉.symm, h₁₀.symm]

theorem matchesRule_withAction {eq : α → α → α → Bool} {trie : α → Option (BitVec 32)}
    {ver : IpVer} {src dst : α} (ha : IsAction a) :
    matchesRule eq trie ver src dst pkt direction (withAction a r) =
      matchesRule eq trie ver src dst pkt direction r := by
  simp (disch := decide) only [matchesRule, matchesCommon, withAction, addrCond, Flags.clause,
    ha.has]
  rfl

theorem scanTable_table {m : FilterRule α → Bool} (hz : zero.matchMask = 0)
    (hr : ∀ r ∈ rules, r.Bare) (hl : rules.length ≤ maxRules) :
    scanTable m ((table zero a rules).take maxRules) =
      (rules.find? (m <| withAction a ·)).map (·.matchMask ||| a) := by
  have hlen : (table zero a rules).length = maxRules := by simp [table]; omega
  rw [List.take_of_length_le hlen.le, table]
  generalize maxRules - rules.length = n
  clear hl hlen
  induction rules
  case nil => cases n <;> simp [scanTable, List.replicate_succ, hz]
  case cons r rules ih =>
    have ⟨hb, hr⟩ := List.forall_mem_cons.mp hr
    have hm : (withAction a r).matchMask ≠ 0 := by
      intro h
      have : Flags.has (withAction a r).matchMask matchEnabled := by simp [withAction, hb.enabled]
      simp [h] at this
    simp only [List.map_cons, List.cons_append, scanTable, hm, ↓reduceIte, List.find?_cons, ih hr]
    cases m (withAction a r) <;> simp [withAction]

theorem head_table (hz : zero.matchMask = 0) :
    (table zero a rules).head?.elim 0 (·.matchMask) = rules.head?.elim 0 (·.matchMask ||| a) := by
  cases rules <;> simp [table, withAction, maxRules, hz]

-- The rules of a family, whatever their addresses are.
def rulesOf (res : PfResult) : IpVer → List RuleCommon
  | .v4 => res.v4.map (·.toRuleCommon)
  | .v6 => res.v6.map (·.toRuleCommon)

theorem bare_of_mem {r : RuleCommon} {ver : IpVer} (hb : res.Bare) (hr : r ∈ rulesOf res ver) :
    r.Bare := by
  cases ver
  case v4 =>
    obtain ⟨r, hm, rfl⟩ := List.mem_map.mp hr
    exact hb.v4 r hm
  case v6 =>
    obtain ⟨r, hm, rfl⟩ := List.mem_map.mp hr
    exact hb.v6 r hm

theorem firstMask_tables {ver : IpVer} :
    firstMask (tables res a) ver = (rulesOf res ver).head?.elim 0 (·.matchMask ||| a) := by
  cases ver <;> simp only [firstMask, tables, rulesOf]
  case v4 => rw [head_table rfl]; cases res.v4 <;> rfl
  case v6 => rw [head_table rfl]; cases res.v6 <;> rfl

-- The first lowered rule that matches a packet.
def hit (res : PfResult) (pkt : ParsedPacket) (direction : Dir) : Option RuleCommon :=
  match pkt.ver with
  | .v4 => (res.v4.find? (matchesRuleIpv4 (tables res 0) pkt direction)).map (·.toRuleCommon)
  | .v6 => (res.v6.find? (matchesRuleIpv6 (tables res 0) pkt direction)).map (·.toRuleCommon)

theorem mem_of_hit {r : RuleCommon} (h : hit res pkt direction = some r) :
    r ∈ rulesOf res pkt.ver := by
  cases hv : pkt.ver <;> simp only [hit, hv, Option.map_eq_some_iff] at h <;>
    obtain ⟨r, hr, rfl⟩ := h <;>
    exact List.mem_map_of_mem (List.mem_of_find?_eq_some hr)

-- Which rule matches does not depend on the action.
theorem scan_tables (hb : res.Bare) (ha : IsAction a) :
    scan (tables res a) pkt direction = (hit res pkt direction).map (·.matchMask ||| a) := by
  cases hv : pkt.ver <;> simp only [scan, hit, hv, Option.map_map]
  case v4 =>
    rw [tables, scanTable_table rfl hb.v4 hb.v4_len]
    simp only [matchesRuleIpv4, matchesRule_withAction ha]
    rfl
  case v6 =>
    rw [tables, scanTable_table rfl hb.v6 hb.v6_len]
    simp only [matchesRuleIpv6, matchesRule_withAction ha]
    rfl

-- The rule that decides about a packet: fragments are always left to the first one.
def decider (res : PfResult) (pkt : ParsedPacket) (direction : Dir) : Option RuleCommon :=
  if pkt.fragment then (rulesOf res pkt.ver).head? else hit res pkt direction

theorem decider_bare {r : RuleCommon} (hb : res.Bare) (h : decider res pkt direction = some r) :
    r.Bare := by
  rw [decider] at h
  split_ifs at h
  case pos => exact bare_of_mem hb (List.mem_of_head? h)
  case neg => exact bare_of_mem hb (mem_of_hit h)

theorem select_tables (hb : res.Bare) (ha : IsAction a) :
    select (tables res a) pkt direction = (decider res pkt direction).map fun r =>
      if pkt.fragment then (r.matchMask ||| a) &&& ~~~matchDrop else r.matchMask ||| a := by
  rw [select, decider]
  cases hf : pkt.fragment
  case false => simp [scan_tables hb ha]
  case true =>
    simp only [matchFragment, firstMask_tables, ↓reduceIte]
    cases hr : (rulesOf res pkt.ver).head?
    case none => simp
    case some r =>
      have hr := bare_of_mem hb (List.mem_of_head? hr)
      have he : Flags.has (r.matchMask ||| a) matchEnabled :=
        (ha.has (by decide) (by decide) (by decide)).trans hr.enabled
      have hn : Flags.has (r.matchMask ||| a) matchFalse = false :=
        (ha.has (by decide) (by decide) (by decide)).trans hr.notFalse
      simp [he, hn]

-- A selected mask says what the action says, except that fragments are not dropped.
theorem has_select (hb : res.Bare) (ha : IsAction a)
    (h : select (tables res a) pkt direction = some mm) :
    Flags.has mm matchSniff = Flags.has a matchSniff ∧
    Flags.has mm matchDrop = (Flags.has a matchDrop && !pkt.fragment) := by
  rw [select_tables hb ha, Option.map_eq_some_iff] at h
  obtain ⟨r, hr, rfl⟩ := h
  have hr := decider_bare hb hr
  cases hf : pkt.fragment
  case false => simp [hr.noSniff, hr.noDrop]
  case true =>
    simp (disch := decide) only [Flags.has_and_not_bit, ↓reduceIte]
    simp [hr.noSniff]

theorem loadRules_eq_some (hload : h.loadRules = some (t, h')) : ∃ res,
    pfLower h.filter = some res ∧ t = tables res (action h.flags res.exact) ∧
    h' = { h with exact := res.exact } := by
  obtain ⟨res, hr, hx⟩ := Option.bind_eq_some_iff.mp hload
  cases hx
  exact ⟨res, hr, rfl, rfl⟩

end Handle
