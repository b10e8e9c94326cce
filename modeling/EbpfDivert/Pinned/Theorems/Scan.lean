import EbpfDivert.Pinned.Theorems.Rules
import EbpfDivert.Kernel.Theorems.Process

open Shared
open Kernel (Env Skb ParsedPacket Outcome Tables parsePacket processPacket gate act scan scanTable)
open Kernel (matchesRuleIpv4 matchesRuleIpv6)

-- Which rule of the pinned tables decides about a packet.
namespace Pinned

variable {α : Type} {libc : Libc} {t : RuleTables}

section Runs

-- An entry holds a rule or nothing.
def Filled (table : List (FilterRule α)) : Prop :=
  ∀ r ∈ table, r.matchMask = 0 ∨ Enabled r.matchMask

theorem Filled.set {table : List (FilterRule α)} {i : Nat} {r : FilterRule α} (h : Filled table)
    (hr : Enabled r.matchMask) : Filled (table.set i r) := by
  intro r' hr'
  rcases List.mem_or_eq_of_mem_set hr' with hr' | rfl
  case inl => exact h r' hr'
  case inr => exact .inr hr

structure RuleTables.Filled (t : RuleTables) : Prop where
  v4 : Pinned.Filled t.v4
  v6 : Pinned.Filled t.v6

theorem RuleTables.filled_empty : empty.Filled where
  v4 := fun _ hr => .inl (List.eq_of_mem_replicate hr ▸ rfl)
  v6 := fun _ hr => .inl (List.eq_of_mem_replicate hr ▸ rfl)

theorem RuleTables.Filled.call {c : Call} (h : t.Filled) : (t.call libc c).Filled := by
  rw [RuleTables.call]
  split
  case h_1 => exact h
  case h_2 w hw =>
    have he := enabled_run hw
    cases w
    case v4 => exact ⟨h.v4.set he, h.v6⟩
    case v6 => exact ⟨h.v4, h.v6.set he⟩

theorem RuleTables.filled_calls {cs : List Call} : (calls libc cs).Filled := by
  have h {t : RuleTables} (ht : t.Filled) : (cs.foldl (RuleTables.call libc) t).Filled := by
    induction cs generalizing t
    case nil          => exact ht
    case cons c cs ih => exact ih ht.call
  exact h filled_empty

end Runs

section Rows

-- What a packet meets in an entry of its table.
structure Row where
  mask : BitVec 16
  hit  : Bool

-- The table of a packet's family.
def rows (t : Tables) (pkt : ParsedPacket) (direction : Dir) : List Row :=
  match pkt.ver with
  | .v4 => t.v4.map fun r => ⟨r.matchMask, matchesRuleIpv4 t pkt direction r⟩
  | .v6 => t.v6.map fun r => ⟨r.matchMask, matchesRuleIpv6 t pkt direction r⟩

-- The entry that is the first one to match, and those before it.
structure Leads (rows before : List Row) (row : Row) : Prop where
  split : ∃ after, rows = before ++ row :: after
  hit   : row.hit
  miss  : ∀ r ∈ before, r.hit = false

-- The loop over a table only looks at the masks and at what matches.
def scanRows : List Row → Option (BitVec 16)
  | []      => none
  | r :: rs => if r.mask = 0 then none else if r.hit then some r.mask else scanRows rs

theorem scanTable_eq {m : FilterRule α → Bool} {table : List (FilterRule α)} :
    scanTable m table = scanRows (table.map fun r => ⟨r.matchMask, m r⟩) := by
  induction table
  case nil          => rfl
  case cons r rs ih => rw [scanTable, List.map_cons, scanRows, ih]

theorem exists_leads {rs : List Row} {row : Row} (hr : row ∈ rs) (hh : row.hit) :
    ∃ before first, Leads rs before first := by
  induction rs
  case nil => cases hr
  case cons r rs ih =>
    cases hf : r.hit
    case true => exact ⟨[], r, ⟨rs, rfl⟩, hf, by simp⟩
    case false =>
      have hr : row ∈ rs := by
        refine (List.mem_cons.mp hr).resolve_left ?_
        rintro rfl
        simp [hh] at hf
      obtain ⟨before, first, ⟨after, rfl⟩, hh, hm⟩ := ih hr
      exact ⟨r :: before, first, ⟨after, rfl⟩, hh, List.forall_mem_cons.mpr ⟨hf, hm⟩⟩

theorem scanRows_of_miss {rs : List Row} (h : ∀ r ∈ rs, r.hit = false) : scanRows rs = none := by
  induction rs
  case nil => rfl
  case cons r rs ih =>
    have ⟨hr, hrs⟩ := List.forall_mem_cons.mp h
    simp [scanRows, hr, ih hrs]

variable {rs before : List Row} {row : Row}

theorem Leads.mem (h : Leads rs before row) : row ∈ rs := by
  obtain ⟨⟨after, rfl⟩, _, _⟩ := h
  simp

theorem Leads.mem_of_before {r : Row} (h : Leads rs before row) (hr : r ∈ before) : r ∈ rs := by
  obtain ⟨⟨after, rfl⟩, _, _⟩ := h
  simp [hr]

-- The loop gets to the first entry that matches if there is a rule in every entry before it.
theorem Leads.scanRows_eq (h : Leads rs before row) (he : Enabled row.mask)
    (hb : ∀ r ∈ before, Enabled r.mask) : scanRows rs = some row.mask := by
  obtain ⟨⟨after, rfl⟩, hh, hm⟩ := h
  induction before
  case nil => rw [List.nil_append, scanRows, if_neg he.ne_zero, if_pos hh]
  case cons r before ih =>
    have ⟨hr, hb⟩ := List.forall_mem_cons.mp hb
    have ⟨hf, hm⟩ := List.forall_mem_cons.mp hm
    rw [List.cons_append, scanRows, if_neg hr.ne_zero, if_neg (by simp [hf]), ih hb hm]

-- Otherwise it stops at the first entry that is empty.
theorem Leads.scanRows_eq_none (h : Leads rs before row) (hb : ∃ r ∈ before, r.mask = 0) :
    scanRows rs = none := by
  obtain ⟨⟨after, rfl⟩, _, hm⟩ := h
  induction before
  case nil => simp at hb
  case cons r before ih =>
    have ⟨hf, hm⟩ := List.forall_mem_cons.mp hm
    rw [List.cons_append, scanRows]
    split_ifs with hz hr
    case pos => rfl
    case pos => simp [hf] at hr
    case neg => exact ih ((List.exists_mem_cons_iff ..).mp hb |>.resolve_left hz) hm

end Rows

section Tables

variable {trie4 : BitVec 32 → Option (BitVec 32)} {trie6 : Bytes → Option (BitVec 32)}
variable {pkt : ParsedPacket} {direction : Dir} {row : Row}

theorem scan_eq_scanRows : scan (t.tables trie4 trie6) pkt direction =
    scanRows (rows (t.tables trie4 trie6) pkt direction) := by
  rw [scan, rows]
  cases pkt.ver
  case v4 => exact (congrArg _ (List.take_of_length_le (Nat.le_of_eq t.length_v4))).trans scanTable_eq
  case v6 => exact (congrArg _ (List.take_of_length_le (Nat.le_of_eq t.length_v6))).trans scanTable_eq

theorem mask_of_mem_rows (ht : t.Filled) (h : row ∈ rows (t.tables trie4 trie6) pkt direction) :
    row.mask = 0 ∨ Enabled row.mask := by
  rw [rows] at h
  cases hv : pkt.ver
  all_goals
    rw [hv] at h
    obtain ⟨r, hr, rfl⟩ := List.mem_map.mp h
  case v4 => exact ht.v4 r hr
  case v6 => exact ht.v6 r hr

theorem enabled_of_hit {t : Tables} (h : row ∈ rows t pkt direction) (hh : row.hit) :
    Enabled row.mask := by
  rw [rows] at h
  cases hv : pkt.ver
  all_goals
    rw [hv] at h
    obtain ⟨r, hr, rfl⟩ := List.mem_map.mp h
    simp only [matchesRuleIpv4, matchesRuleIpv6, Kernel.matchesRule, Bool.and_eq_true] at hh
    exact hh.1.1.1.1.1

end Tables

section Decides

variable (env : Env) (cfg : DivertConfig) (t : Tables) (skb : Skb) (direction : Dir)
variable (pkt : ParsedPacket)

-- A packet as the rules see it.
def parsed : Option ParsedPacket :=
  (parsePacket skb.pulled).map ({ · with isLo := Kernel.isLo cfg skb })

-- The first rule of its table that matches a packet decides about it.
structure Decides : Prop where
  first : ∀ before row, Leads (rows t pkt direction) before row →
    ∃ flags, processPacket env cfg t skb direction = act env cfg skb pkt direction flags row.mask
  pass  : (∀ row ∈ rows t pkt direction, row.hit = false) →
    ∃ stat, processPacket env cfg t skb direction = .pass stat
  only  : processPacket env cfg t skb direction = .pass none →
    ∀ row ∈ rows t pkt direction, row.hit = false

-- A packet that a rule matches comes as far as to the rules, and there is a rule in every entry of
-- the table before that one.
def Reached : Prop :=
  ∀ before row, Leads (rows t pkt direction) before row →
    (gate env cfg skb direction).isSome ∧ ∀ r ∈ before, Enabled r.mask

end Decides

section Decides

variable {trie4 : BitVec 32 → Option (BitVec 32)} {trie6 : Bytes → Option (BitVec 32)}
variable {env : Env} {cfg : DivertConfig} {skb : Skb} {direction : Dir} {pkt : ParsedPacket}
variable {before : List Row} {row : Row} {flags mm : BitVec 16}

theorem ne_act_of_unseen {stat : Option Kernel.Stat} (hl : 0 < skb.len) (hs : stat ∈ Kernel.unseen) :
    Outcome.pass stat ≠ act env cfg skb pkt direction flags mm := by
  intro h
  obtain ⟨stat', hm, hs'⟩ := Kernel.act_stat hl
  rw [← h] at hs'
  cases hs'
  simp only [Kernel.unseen, List.mem_cons, reduceCtorEq, Option.some.injEq] at hs hm
  grind

theorem len_pos_of_parsed (hk : parsed cfg skb = some pkt) : 0 < skb.len := by
  obtain ⟨pkt', hp, _⟩ := Option.map_eq_some_iff.mp hk
  have hl := (Kernel.parsePacket_eq_some hp).2.1.length_le
  rw [Skb.pulled, List.length_take] at hl
  rw [Skb.len]
  omega

theorem eq_of_gate {pkt' : ParsedPacket} (hk : parsed cfg skb = some pkt)
    (hg : gate env cfg skb direction = some (flags, pkt')) : pkt' = pkt := by
  obtain ⟨_, _, pkt₀, _, _, hp, rfl, _⟩ := Kernel.gate_eq_some hg
  rw [parsed, hp] at hk
  exact Option.some.inj hk

-- What becomes of a packet that comes as far as to the rules.
theorem processPacket_eq (hg : gate env cfg skb direction = some (flags, pkt))
    (hf : pkt.fragment = false) :
    processPacket env cfg (t.tables trie4 trie6) skb direction =
      (scanRows (rows (t.tables trie4 trie6) pkt direction)).elim (.pass none)
        (act env cfg skb pkt direction flags) := by
  rw [Kernel.processPacket_of_gate hg, Kernel.judge, Kernel.select, if_neg (by simp [hf]),
    scan_eq_scanRows]
  cases scanRows (rows (t.tables trie4 trie6) pkt direction) <;> rfl

theorem Decides.reached (hk : parsed cfg skb = some pkt) (hf : pkt.fragment = false)
    (ht : t.Filled) (h : Decides env cfg (t.tables trie4 trie6) skb direction pkt) :
    Reached env cfg (t.tables trie4 trie6) skb direction pkt := by
  intro before row hr
  obtain ⟨flags, ha⟩ := h.first before row hr
  have hl := len_pos_of_parsed hk
  cases hg : gate env cfg skb direction
  case none =>
    obtain ⟨stat, hs, hp⟩ := Kernel.processPacket_unseen hg
    exact absurd (hp.symm.trans ha) (ne_act_of_unseen hl hs)
  case some res =>
    obtain ⟨flags', pkt'⟩ := res
    obtain rfl := eq_of_gate hk hg
    refine ⟨rfl, ?_⟩
    by_contra! hb
    obtain ⟨r, hr', hb⟩ := hb
    have hz : r.mask = 0 := (mask_of_mem_rows ht (hr.mem_of_before hr')).resolve_right hb
    rw [processPacket_eq hg hf, hr.scanRows_eq_none ⟨r, hr', hz⟩, Option.elim_none] at ha
    exact ne_act_of_unseen hl (by simp [Kernel.unseen]) ha

theorem Reached.decides (hk : parsed cfg skb = some pkt) (hf : pkt.fragment = false)
    (h : Reached env cfg (t.tables trie4 trie6) skb direction pkt) :
    Decides env cfg (t.tables trie4 trie6) skb direction pkt := by
  have first : ∀ before row, Leads (rows (t.tables trie4 trie6) pkt direction) before row →
      ∃ flags, processPacket env cfg (t.tables trie4 trie6) skb direction =
        act env cfg skb pkt direction flags row.mask := by
    intro before row hr
    obtain ⟨hg, hb⟩ := h before row hr
    obtain ⟨⟨flags, pkt'⟩, hg⟩ := Option.isSome_iff_exists.mp hg
    obtain rfl := eq_of_gate hk hg
    have he : Enabled row.mask := enabled_of_hit hr.mem hr.hit
    exact ⟨flags, by rw [processPacket_eq hg hf, hr.scanRows_eq he hb, Option.elim_some]⟩
  refine ⟨first, fun hm => ?_, fun hp row hr => ?_⟩
  case refine_1 =>
    cases hg : gate env cfg skb direction
    case none =>
      obtain ⟨stat, _, hp⟩ := Kernel.processPacket_unseen hg
      exact ⟨stat, hp⟩
    case some res =>
      obtain rfl := eq_of_gate hk hg
      exact ⟨none, by rw [processPacket_eq hg hf, scanRows_of_miss hm, Option.elim_none]⟩
  case refine_2 =>
    by_contra hh
    obtain ⟨before, row', hr'⟩ := exists_leads hr (by simpa using hh)
    obtain ⟨flags, ha⟩ := first before row' hr'
    exact ne_act_of_unseen (len_pos_of_parsed hk) (by simp [Kernel.unseen]) (hp.symm.trans ha)

theorem first_match_decides_iff {cs : List Call} (hk : parsed cfg skb = some pkt)
    (hf : pkt.fragment = false) :
    Decides env cfg ((RuleTables.calls libc cs).tables trie4 trie6) skb direction pkt ↔
    Reached env cfg ((RuleTables.calls libc cs).tables trie4 trie6) skb direction pkt := by
  constructor
  case mp  => exact Decides.reached hk hf RuleTables.filled_calls
  case mpr => exact Reached.decides hk hf

end Decides

section Gap

open Kernel (okEnv openConfig sentSkb)

-- All UDP packets are to be dropped by the rule at an index.
def dropUdp (idx : Int) : Call :=
  .add allOk idx (some "udp".toList) (some "any".toList) (some "any".toList) (some "drop".toList)

def tablesAfter (cs : List Call) : Tables :=
  (RuleTables.calls noAddresses cs).tables (fun _ => none) fun _ => none

-- An IPv4 header of a UDP packet.
def udpHeader : Bytes :=
  [0x45, 0, 0, 20, 0, 0, 0, 0, 64, 17, 0, 0, 10, 0, 0, 1, 10, 0, 0, 2]

def udpPkt : ParsedPacket where
  ver      := .v4
  srcIp    := 0x0A000001
  dstIp    := 0x0A000002
  srcIp6   := .replicate 16 0
  dstIp6   := .replicate 16 0
  srcPort  := 0
  dstPort  := 0
  l2Len    := 0
  proto    := 17
  ttl      := 64
  tcpFlags := 0
  fragment := false
  isLo     := false

theorem first_match_decides_udp : parsed openConfig (sentSkb udpHeader) = some udpPkt ∧
    (Decides okEnv openConfig (tablesAfter [dropUdp 0]) (sentSkb udpHeader) .outbound udpPkt ↔
      Reached okEnv openConfig (tablesAfter [dropUdp 0]) (sentSkb udpHeader) .outbound udpPkt) := by
  have hk : parsed openConfig (sentSkb udpHeader) = some udpPkt := rfl
  exact ⟨hk, first_match_decides_iff hk rfl⟩

-- With nothing in the first entry, the rule in the second one is never asked.
theorem first_match_gap : parsed openConfig (sentSkb udpHeader) = some udpPkt ∧
    (∃ row ∈ rows (tablesAfter [dropUdp 1]) udpPkt .outbound, row.hit ∧
      Flags.has row.mask matchDrop) ∧
    processPacket okEnv openConfig (tablesAfter [dropUdp 1]) (sentSkb udpHeader) .outbound =
      .pass none ∧
    ¬Decides okEnv openConfig (tablesAfter [dropUdp 1]) (sentSkb udpHeader) .outbound udpPkt := by
  have hr : ∃ row ∈ rows (tablesAfter [dropUdp 1]) udpPkt .outbound, row.hit ∧
      Flags.has row.mask matchDrop := ⟨⟨0x510, true⟩, .tail _ (.head _), rfl, rfl⟩
  have hp : processPacket okEnv openConfig (tablesAfter [dropUdp 1]) (sentSkb udpHeader) .outbound =
      .pass none := rfl
  refine ⟨rfl, hr, hp, fun h => ?_⟩
  obtain ⟨row, hr, hh, _⟩ := hr
  simp [h.only hp row hr] at hh

end Gap

end Pinned
