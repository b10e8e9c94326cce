import EbpfDivert.Prefilter.Theorems.AddrCode
import EbpfDivert.Prefilter.Theorems.EventBranch
import EbpfDivert.Prefilter.Theorems.Lower
import EbpfDivert.Kernel.Events

open Wd (Insn)
open Shared
open Handle (wordsFromNet testBit_wordsFromNet eventTable)
open Kernel (addrMatch ruleMatch scanRules shouldBlock)

namespace Prefilter

variable {e : DivertEvent} {c : Cube} {f : Wd.Filter}

theorem forall_halves (P : Nat → Nat → Prop) : ((∀ j < 64, P 0 j) ∧ ∀ j < 64, P 8 j) ↔
    ∀ k < 128, P (if k < 64 then 8 else 0) (k % 64) := by
  constructor
  case mp =>
    intro ⟨h₀, h₈⟩ k hk
    split_ifs
    case pos => exact h₈ _ (by omega)
    case neg => exact h₀ _ (by omega)
  case mpr =>
    intro h
    constructor
    case left =>
      intro j hj
      have := h (64 + j) (by omega)
      rwa [if_neg (by omega), show (64 + j) % 64 = j by omega] at this
    case right =>
      intro j hj
      have := h j (by omega)
      rwa [if_pos hj, show j % 64 = j by omega] at this

-- The event programs compare two words where the rules for packets compare 16 bytes.
theorem addrMatch_iff {a : Bytes} {ip mask : Words} : addrMatch a ip.toNet16 mask.toNet16 ↔
    maskedEq6 (wordsFromNet a).toNet16 mask.toNet16 ip.toNet16 := by
  have half {b : Bytes} {k : Nat} (hk : k < 128) :
      (b.be64 (if k < 64 then 8 else 0)).getLsbD (k % 64) = (b.byte (15 - k / 8)).getLsbD (k % 8) := by
    rw [Bytes.getLsbD_be64 (by omega), show k % 64 % 8 = k % 8 by omega]
    split_ifs
    case pos => rw [show 8 + (7 - k % 64 / 8) = 15 - k / 8 by omega]
    case neg => rw [show 0 + (7 - k % 64 / 8) = 15 - k / 8 by omega]
  have net {v : Words} {k : Nat} (hk : k < 128) :
      (Bytes.byte v.toNet16 (15 - k / 8)).getLsbD (k % 8) = v.value.testBit k := by
    rw [Bytes.byte, Words.getLsbD_toNet16 (by omega) (by omega),
      show 8 * (15 - (15 - k / 8)) + k % 8 = k by omega]
  rw [maskedEq6_iff, addrMatch, Bool.and_eq_true, beq_iff_eq, beq_iff_eq,
    Flags.xor_and_eq_zero_iff, Flags.xor_and_eq_zero_iff]
  refine (forall_halves fun i j => (Bytes.be64 mask.toNet16 i).getLsbD j →
    (a.be64 i).getLsbD j = (Bytes.be64 ip.toNet16 i).getLsbD j).trans ?_
  constructor
  case mp =>
    intro h k hk
    have hlt := Words.lt_of_testBit hk
    have := h k hlt
    rw [half hlt, half hlt, half hlt, net hlt, net hlt, ← testBit_wordsFromNet hlt] at this
    exact this hk
  case mpr =>
    intro h k hlt
    rw [half hlt, half hlt, half hlt, net hlt, net hlt, ← testBit_wordsFromNet hlt]
    exact h k

theorem getLsbD_eventBits {r : PfRange} {i : Nat} (hi : i < 16) :
    (eventBits r).getLsbD i = r.contains i := by
  have bits (l : List Nat) (hl : ∀ j ∈ l, j < 16) (m : BitVec 16) :
      (l.foldl (fun m j => if r.contains j then m ||| Flags.bit 16 j else m) m).getLsbD i =
        (m.getLsbD i || (decide (i ∈ l) && r.contains i)) := by
    induction l generalizing m
    case nil => simp
    case cons j l ih =>
      have hj := hl j (by simp)
      rw [List.foldl_cons, ih fun j hj => hl j (by simp [hj])]
      by_cases hij : i = j
      case pos =>
        subst hij
        cases r.contains i <;> simp [Flags.getLsbD_bit hi]
      case neg => cases r.contains j <;> simp [Flags.getLsbD_bit hj, hij]
  rw [eventBits, bits _ (by simp) 0]
  simp [hi]

theorem eventClause_iff (he : e.event.toNat < 16) :
    (c.event.data.isFull 15 ∨ (if c.event.data.isFull 15 = false then eventBits c.event.data
      else 0#16).getLsbD e.event.toNat) ↔ c.event.Mem e.event.toNat := by
  by_cases hf : c.event.data.isFull 15
  case neg => simp [hf, getLsbD_eventBits he, PfRange.contains_iff, Range.Mem]
  case pos =>
    have hf' := hf
    simp only [PfRange.isFull, Bool.and_eq_true, beq_iff_eq, List.isEmpty_iff] at hf'
    simp [hf, Range.Mem, PfRange.Mem, hf']
    omega

theorem familyClause_iff : (c.ver = none ∨ e.family = c.ver.elim 0 IpVer.code) ↔
    ∀ v ∈ c.ver, e.family = v.code := by
  cases c.ver <;> simp

-- A rule as the event programs read it.
theorem ruleMatch_emit (he : e.event.toNat < 16) : ruleMatch (emitEventRule c).1 e ↔
    c.event.Mem e.event.toNat ∧ (∀ v ∈ c.ver, e.family = v.code) ∧
    (encodeRange32 c.proto.data 255).point.SelectsPoint e.protocol ∧
    (encodeRange32 c.sport.data 65535).Selects e.localPort ∧
    (encodeRange32 c.dport.data 65535).Selects e.remotePort ∧
    (encodeRange32 c.pid.data 0xFFFFFFFF).Selects e.pid ∧
    (encodeAddr c.src).Selects6 (wordsFromNet e.localAddr) ∧
    (encodeAddr c.dst).Selects6 (wordsFromNet e.remoteAddr) := by
  have hlt : e.event.toNat < 32 := by omega
  have hb : 1#32 <<< e.event.toNat = Flags.bit 32 e.event.toNat := rfl
  rw [← eventClause_iff he, ← familyClause_iff]
  simp only [ruleMatch, Bool.and_eq_true, Flags.clause_iff, hb, Flags.has_getLsbD hlt]
  simp +contextual [emitEventRule, RangeCode.Selects, RangeCode.SelectsPoint, AddrCode.Selects6,
    AddrCode.Selects, addrMatch_iff, hlt, and_assoc]

theorem wordsFromNet_toNet16 {v : Words} : wordsFromNet v.toNet16 = v := by
  refine Words.value_inj.mp <| Nat.eq_of_testBit_eq fun k => ?_
  by_cases hk : k < 128
  case pos =>
    rw [testBit_wordsFromNet hk, Bytes.byte, Words.getLsbD_toNet16 (by omega) (by omega),
      show 8 * (15 - (15 - k / 8)) + k % 8 = k by omega]
  case neg => rw [Words.testBit_of_le (by omega), Words.testBit_of_le (by omega)]

-- The event with other addresses.
def DivertEvent.moved (e : DivertEvent) (l r : Bytes) : DivertEvent :=
  { e with localAddr := l, remoteAddr := r }

def DivertEvent.addr (e : DivertEvent) (useSrc : Bool) : Bytes :=
  if useSrc then e.localAddr else e.remoteAddr

theorem Cube.memEvent_iff_anywhere : c.MemEvent e ↔
    c.anywhere.MemEvent e ∧ ∀ useSrc, (c.addr useSrc).Mem (wordsFromNet (DivertEvent.addr e useSrc)) := by
  simp only [Bool.forall_bool, Cube.memEvent_iff, anywhere, Cube.addr, DivertEvent.addr, PfAddr.mem_full]
  tauto

theorem Cube.memEvent_anywhere_moved {l r : Bytes} :
    c.anywhere.MemEvent (DivertEvent.moved e l r) ↔ c.anywhere.MemEvent e := by
  simp [Cube.memEvent_iff, anywhere, DivertEvent.moved]

-- The rule of a cube matches the events that its encoded addresses select.
theorem emitEventRule_covers (he : e.event.toNat < 16) :
    Covers (emitEventRule c).2 (c.anywhere.MemEvent e ∧
        ∀ useSrc, (encodeAddr (c.addr useSrc)).Selects6 (wordsFromNet (DivertEvent.addr e useSrc)))
      (ruleMatch (emitEventRule c).1 e) := by
  have hp := RangeCode.covers_point <|
    (encodeRange32_encodes c.proto.data).covers (by decide) (by decide) (v := e.protocol) (by omega)
  have hl := (encodeRange32_encodes c.sport.data).covers (by decide) (by decide) (v := e.localPort)
    (by omega)
  have hr := (encodeRange32_encodes c.dport.data).covers (by decide) (by decide) (v := e.remotePort)
    (by omega)
  have hi := (encodeRange32_encodes c.pid.data).covers (by decide) (by decide) (v := e.pid) (by omega)
  have ha : Covers True
      (∀ useSrc, (encodeAddr (c.addr useSrc)).Selects6 (wordsFromNet (DivertEvent.addr e useSrc))) _ :=
    .of_iff .rfl
  have hrest : Covers True (c.event.Mem e.event.toNat ∧ ∀ v ∈ c.ver, e.family = v.code) _ :=
    .of_iff .rfl
  refine ((hrest.and <| hp.and <| hl.and <| hr.and <| hi.and ha).mono ?_).congr ?_ ?_
  case refine_1 =>
    simp only [emitEventRule, Bool.and_eq_true]
    tauto
  case refine_2 =>
    rw [Cube.memEvent_iff]
    simp only [Cube.anywhere, PfAddr.mem_full]
    tauto
  case refine_3 =>
    rw [ruleMatch_emit he]
    simp only [Bool.forall_bool, Cube.addr, DivertEvent.addr]
    tauto

theorem ruleMatch_of_mem (he : e.event.toNat < 16) (hm : c.MemEvent e) :
    ruleMatch (emitEventRule c).1 e := by
  have ⟨ha, hmem⟩ := Cube.memEvent_iff_anywhere.mp hm
  exact (emitEventRule_covers he).sound
    ⟨ha, fun useSrc => (encodeAddr_covers6 _ _).sound (hmem useSrc)⟩

theorem emitEventRule_exact (h : (emitEventRule c).2) :
    c.exact ∧ ∀ useSrc, (encodeAddr (c.addr useSrc)).exact := by
  simp only [emitEventRule, Bool.and_eq_true] at h
  exact ⟨h.1.1.1.1.1.1, fun useSrc => by cases useSrc <;> simp [Cube.addr, h]⟩

-- An event that the rule of an exactly encoded cube matches is in the cube, or would be with other
-- addresses that the rule mistakes its own for.
theorem exists_moved_of_ruleMatch (he : e.event.toNat < 16) (hx : (emitEventRule c).2)
    (h : ruleMatch (emitEventRule c).1 e) : ∃ l r, c.MemEvent (DivertEvent.moved e l r) ∧
      ∀ useSrc, DivertEvent.addr (DivertEvent.moved e l r) useSrc = DivertEvent.addr e useSrc ∨
        (c.addr useSrc).Punctured4 ∧
          Mistaken .v6 {u | (c.addr useSrc).Mem u} (wordsFromNet (DivertEvent.addr e useSrc)) := by
  have ⟨ha, hsel⟩ := (emitEventRule_covers he).exact hx h
  have choose useSrc : ∃ b, (c.addr useSrc).Mem (wordsFromNet b) ∧ (b = DivertEvent.addr e useSrc ∨
      (c.addr useSrc).Punctured4 ∧
        Mistaken .v6 {u | (c.addr useSrc).Mem u} (wordsFromNet (DivertEvent.addr e useSrc))) := by
    rcases mem_of_selects6 ((emitEventRule_exact hx).right useSrc) (hsel useSrc) with hm | hm
    case inl => exact ⟨_, hm, .inl rfl⟩
    case inr =>
      obtain ⟨u, hu⟩ := hm.right.nonempty
      exact ⟨u.toNet16, wordsFromNet_toNet16 ▸ hu, .inr hm⟩
  obtain ⟨l, hl, hl'⟩ := choose true
  obtain ⟨r, hr, hr'⟩ := choose false
  refine ⟨l, r, Cube.memEvent_iff_anywhere.mpr
    ⟨Cube.memEvent_anywhere_moved.mpr ha, fun useSrc => ?_⟩, fun useSrc => ?_⟩
  case refine_1 => cases useSrc; exacts [hr, hl]
  case refine_2 => cases useSrc; exacts [hr', hl']

theorem emitEventRule_enabled : Flags.has (emitEventRule c).1.matchMask evmEnabled := by
  simp [emitEventRule]

-- A table of enabled rules followed by zeros is scanned to its end.
theorem scanRules_iff {rules : List EventRule} {n : Nat}
    (h : ∀ r ∈ rules, Flags.has r.matchMask evmEnabled) :
    scanRules e (rules ++ .replicate n .zero) ↔ ∃ r ∈ rules, ruleMatch r e := by
  induction rules
  case nil => cases n <;> simp [List.replicate_succ, scanRules, EventRule.zero]
  case cons r rules ih =>
    have ih := ih fun r hr => h r (by simp [hr])
    simp [scanRules, h r (by simp), ih]

theorem take_eventTable {rules : List EventRule} (h : rules.length ≤ eventRulesMax) :
    (eventTable rules).take eventRulesMax = eventTable rules :=
  List.take_of_length_le (by simp [eventTable]; omega)

theorem nearFull_of_leads {object : List Insn} (ho : Wd.Proper object)
    (ha : ∀ insn ∈ object, AddrEq insn)
    (h : (Wd.graph object).Leads (pfBranch true) 0 .init c) : c.NearFull 256 := by
  refine h.last (fun n c => c.NearFull n) (fun hc hi hm hx => ?_) (fun hc hi hm => ?_) .init
  case refine_1 =>
    have := ho.node_lt hi hx
    exact fun useSrc => (hc.pfBranch (ha _ (List.mem_of_getElem? hi)) hm useSrc).mono (by omega)
  case refine_2 =>
    have hn := (List.getElem?_eq_some_iff.mp hi).1
    have hmax : object.length ≤ 256 := ho.le_max
    exact fun useSrc => (hc.pfBranch (ha _ (List.mem_of_getElem? hi)) hm useSrc).mono (by omega)

theorem Cube.NearFull.not_punctured4 (h : c.NearFull 256) (useSrc : Bool) :
    ¬(c.addr useSrc).Punctured4 := by
  intro ⟨hl, _, hx⟩
  rw [value_lo4] at hl
  rcases h useSrc with h | h
  case inl => omega
  case inr => simp [h.right] at hx

theorem filterEval_event {sniff : Bool} {hash : BitVec 64} (hl : f.layer = .socket) :
    Wd.filterEval f hash [] (Handle.eventAddress f.layer sniff e e.event) =
      Wd.executeFilter f.object (eventInput sniff hash e) := by
  simp [Wd.filterEval, Handle.eventAddress, hl, eventInput]

-- The outcome of an exact lowering: one exact rule for each cube.
theorem pfLowerEvents_exact {rules : List EventRule} {max : Nat}
    (h : pfLowerEvents f max = (rules, true)) :
    ∃ cs : List Cube, (∀ c, c ∈ cs ↔ (Wd.graph f.object).Leads (pfBranch true) 0 .init c) ∧
      rules = cs.map (fun c => (emitEventRule c).1) ∧ ∀ c ∈ cs, (emitEventRule c).2 := by
  simp only [pfLowerEvents] at h
  split_ifs at h with ho
  case pos => simp at h
  case neg =>
    have ⟨hr, he⟩ := Prod.mk.inj h
    refine ⟨_, fun c => mem_pfWalkAll ?_, hr.symm, by simpa using he⟩
    simpa using (not_or.mp ho).left

theorem Plain.serialized {object : List Insn} (h : Plain object) : Serialized object :=
  { h with }

section

variable {object : List Insn} {sniff : Bool} {hash : BitVec 64} (ho : Serialized object)
include ho

theorem exists_leads_event (he : e.event.toNat < 16)
    (h : (Wd.graph object).Accepts (pfAnswerEvent (eventInput sniff hash e)) 0) :
    ∃ c, (Wd.graph object).Leads (pfBranch true) 0 .init c ∧ c.MemEvent e :=
  h.exists_leads (Cube.exact ·) (Cube.MemEvent · e) (Cube.memEvent_init he)
    fun hi _ => pfBranch_event_splits (ho.test _ (List.mem_of_getElem? hi))

theorem accepts_of_leads_event (h : (Wd.graph object).Leads (pfBranch true) 0 .init c)
    (hx : c.exact) (hm : c.MemEvent e) :
    (Wd.graph object).Accepts (pfAnswerEvent (eventInput sniff hash e)) 0 :=
  h.accepts_of_exact (Cube.exact ·) (Cube.MemEvent · e) hx hm
    fun hi => pfBranch_event_splits (ho.test _ (List.mem_of_getElem? hi))

end

-- The event with another address on one side.
def DivertEvent.setAddr (e : DivertEvent) (useSrc : Bool) (v : Words) : DivertEvent :=
  if useSrc then DivertEvent.moved e v.toNet16 e.remoteAddr
  else DivertEvent.moved e e.localAddr v.toNet16

-- The addresses with which the filter cannot tell an event from what it is.
def EventTwins (object : List Insn) (answer : DivertEvent → Insn → Option Bool) (e : DivertEvent)
    (useSrc : Bool) : Set Words :=
  {v | (Wd.graph object).Alike (answer e) (answer (DivertEvent.setAddr e useSrc v)) 0}

theorem addr_eq_eventTwins {object : List Insn} {sniff : Bool} {hash : BitVec 64}
    (ho : Serialized object) (h : (Wd.graph object).Leads (pfBranch true) 0 .init c) (hx : c.exact)
    (he : e.event.toNat < 16) (hm : c.MemEvent e) (useSrc : Bool) : {u | (c.addr useSrc).Mem u} =
      EventTwins object (fun e => pfAnswerEvent (eventInput sniff hash e)) e useSrc := by
  ext u
  have hmem : (c.addr useSrc).Mem u ↔ c.MemEvent (DivertEvent.setAddr e useSrc u) := by
    have ⟨ha, hmem⟩ := Cube.memEvent_iff_anywhere.mp hm
    rw [Cube.memEvent_iff_anywhere]
    cases useSrc
    case false =>
      simp only [DivertEvent.setAddr, Bool.false_eq_true, ↓reduceIte, Cube.memEvent_anywhere_moved, ha]
      simpa [Bool.forall_bool, DivertEvent.addr, DivertEvent.moved, wordsFromNet_toNet16] using
        fun _ => hmem true
    case true =>
      simp only [DivertEvent.setAddr, ↓reduceIte, Cube.memEvent_anywhere_moved, ha]
      simpa [Bool.forall_bool, DivertEvent.addr, DivertEvent.moved, wordsFromNet_toNet16] using
        fun _ => hmem false
  have step {e n insn b c c'} (hi : (Wd.graph object).node n = some insn)
      (hc : c' ∈ pfBranch true insn b c) (h : c'.exact ∧ c'.MemEvent e) :
      (c.exact ∧ c.MemEvent e) ∧ pfAnswerEvent (eventInput sniff hash e) insn = some b :=
    and_assoc.mpr <|
      (pfBranch_event_splits (ho.test _ (List.mem_of_getElem? hi))).exact c' hc h.left h.right
  have hiff := h.mem_iff (fun c => c.exact ∧ c.MemEvent e)
    (fun c => c.exact ∧ c.MemEvent (DivertEvent.setAddr e useSrc u)) step step
    (fun {n insn b c c'} hi hc hm hm' ha => ?_) ⟨hx, hm⟩ ⟨rfl, Cube.memEvent_init ?_⟩
  case refine_1 =>
    have ht := ho.test _ (List.mem_of_getElem? hi)
    obtain ⟨c'', hc', hm'⟩ := (pfBranch_event_splits ht).sound hm'.right ha
    exact ⟨hm.left, pfBranch_event_unique hc' hc ▸ hm'⟩
  case refine_2 => cases useSrc <;> exact he
  rw [and_iff_right hx] at hiff
  exact hmem.trans hiff

section

variable {cfg : EventConfig} {rules : List EventRule} {max : Nat} (sniff : Bool) (hash : BitVec 64)
variable (ho : Serialized f.object) (hr : pfLowerEvents f max = (rules, true))
variable (hn : rules.length ≤ eventRulesMax) (hb : Flags.has cfg.flags evcfgBlock)
variable (he : e.event.toNat < 16)
include hr hn hb

theorem shouldBlock_iff_exists : shouldBlock cfg (eventTable rules) e ↔
    ∃ c, (Wd.graph f.object).Leads (pfBranch true) 0 .init c ∧ (emitEventRule c).2 ∧
      ruleMatch (emitEventRule c).1 e := by
  have ⟨cs, hc, hrules, hx⟩ := pfLowerEvents_exact hr
  have hen : ∀ r ∈ rules, Flags.has r.matchMask evmEnabled := by
    simp [hrules, emitEventRule_enabled]
  rw [shouldBlock, hb, Bool.true_and, take_eventTable hn, eventTable, scanRules_iff hen, hrules]
  simp only [List.mem_map, exists_exists_and_eq_and, ← hc]
  exact exists_congr fun c => ⟨fun ⟨hm, h⟩ => ⟨hm, hx c hm, h⟩, fun ⟨hm, _, h⟩ => ⟨hm, h⟩⟩

include ho he

theorem shouldBlock_of_accepts
    (h : (Wd.graph f.object).Accepts (pfAnswerEvent (eventInput sniff hash e)) 0) :
    shouldBlock cfg (eventTable rules) e := by
  have ⟨c, hl, hm⟩ := exists_leads_event ho he h
  have ⟨cs, hc, _, hx⟩ := pfLowerEvents_exact hr
  exact (shouldBlock_iff_exists hr hn hb).mpr
    ⟨c, hl, hx c ((hc c).mpr hl), ruleMatch_of_mem he hm⟩

-- An operation that exact rules refuse has an event that is accepted, or would be with other
-- addresses that the rules mistake its own for.
theorem accepts_of_shouldBlock (h : shouldBlock cfg (eventTable rules) e) :
    ∃ c l r, (Wd.graph f.object).Leads (pfBranch true) 0 .init c ∧
      (Wd.graph f.object).Accepts
        (pfAnswerEvent (eventInput sniff hash (DivertEvent.moved e l r))) 0 ∧
      ∀ useSrc, DivertEvent.addr (DivertEvent.moved e l r) useSrc = DivertEvent.addr e useSrc ∨
        (c.addr useSrc).Punctured4 ∧ Mistaken .v6 (EventTwins f.object
          (fun e => pfAnswerEvent (eventInput sniff hash e)) (DivertEvent.moved e l r) useSrc)
          (wordsFromNet (DivertEvent.addr e useSrc)) := by
  obtain ⟨c, hl, hx, hm⟩ := (shouldBlock_iff_exists hr hn hb).mp h
  obtain ⟨l, r, hmem, hside⟩ := exists_moved_of_ruleMatch he hx hm
  have hce := (emitEventRule_exact hx).left
  refine ⟨c, l, r, hl, accepts_of_leads_event ho hl hce hmem, fun useSrc => ?_⟩
  rw [← addr_eq_eventTwins ho hl hce (by exact he) hmem]
  exact hside useSrc

end

-- Tests for equality leave no range that is mistaken for another.
theorem shouldBlock_iff_accepted {cfg : EventConfig} {rules : List EventRule} {max : Nat}
    (sniff : Bool) (hash : BitVec 64) (ho : Plain f.object) (hl : f.layer = .socket)
    (ha : ∀ insn ∈ f.object, insn.field = .localAddr ∨ insn.field = .remoteAddr →
      insn.test = .eq ∨ insn.test = .neq)
    (hr : pfLowerEvents f max = (rules, true)) (hn : rules.length ≤ eventRulesMax)
    (hb : Flags.has cfg.flags evcfgBlock) (he : e.event.toNat < 16) :
    shouldBlock cfg (eventTable rules) e ↔
      Wd.filterEval f hash [] (Handle.eventAddress f.layer sniff e e.event) = some true := by
  have hs := ho.serialized
  have alike : (Wd.graph f.object).Alike (Wd.answer (eventInput sniff hash e))
      (pfAnswerEvent (eventInput sniff hash e)) 0 :=
    fun _ _ _ hi => pfAnswerEvent_unsigned (ho.neg _ (List.mem_of_getElem? hi))
  rw [filterEval_event hl, Wd.executeFilter_eq_true_iff ho.toProper, ← alike.accepts_iff]
  refine ⟨fun h => ?_, shouldBlock_of_accepts sniff hash hs hr hn hb he⟩
  obtain ⟨c, l, r, hc, hacc, hside⟩ := accepts_of_shouldBlock sniff hash hs hr hn hb he h
  have own useSrc := (hside useSrc).resolve_right fun h =>
    (nearFull_of_leads ho.toProper ha hc).not_punctured4 useSrc h.left
  obtain rfl : l = e.localAddr := own true
  obtain rfl : r = e.remoteAddr := own false
  exact hacc

-- The rules that an exact lowering stores refuse exactly the operations whose event the filter
-- accepts.
theorem shouldBlock_iff_filterEval {cfg : EventConfig} {rules : List EventRule} (max : Nat)
    {sniff : Bool} {hash : BitVec 64} (ho : Plain f.object) (hl : f.layer = .socket)
    (ha : ∀ insn ∈ f.object, insn.field = .localAddr ∨ insn.field = .remoteAddr →
      insn.test = .eq ∨ insn.test = .neq)
    (hr : pfLowerEvents f max = (rules, true)) (hn : rules.length ≤ eventRulesMax)
    (hb : Flags.has cfg.flags evcfgBlock = true) (he : e.event.toNat < 16) :
    shouldBlock cfg (eventTable rules) e = true ↔
      Wd.filterEval f hash [] (Handle.eventAddress f.layer sniff e e.event) = some true :=
  shouldBlock_iff_accepted sniff hash ho hl ha hr hn hb he

-- `event == CONNECT and remotePort == 443`
def connectFilter : Wd.Filter where
  layer  := .socket
  object :=
    [⟨.event, .eq, 1, Wd.resultReject, false, .ofNarrow 4⟩,
     ⟨.remotePort, .eq, Wd.resultAccept, Wd.resultReject, false, .ofNarrow 443⟩]

def connectEvent : DivertEvent where
  timestamp        := 0
  endpointId       := 7
  parentEndpointId := 0
  pid              := 1234
  event            := 4
  protocol         := Wd.ipprotoTcp
  family           := 4
  flags            := 0
  localPort        := 0
  remotePort       := 443
  localAddr        := (Words.mapped 0).toNet16
  remoteAddr       := (Words.mapped 0xC0000201).toNet16

def blockConfig : EventConfig where
  flags              := evcfgSocket ||| evcfgBlock
  heartbeatNs        := 0
  heartbeatTimeoutNs := 0

theorem shouldBlock_iff_filterEval_connect : ∃ rules, pfLowerEvents connectFilter eventRulesMax =
    (rules, true) ∧ rules.length = 1 ∧ (shouldBlock blockConfig (eventTable rules) connectEvent = true ↔
      Wd.filterEval connectFilter 0 [] (Handle.eventAddress .socket false connectEvent 4) = some true) :=
  ⟨_, rfl, rfl, shouldBlock_iff_filterEval (f := connectFilter) (e := connectEvent)
    eventRulesMax (by decide) rfl (by decide) rfl (by decide) (by decide) (by decide)⟩

section AddrCode

variable {a : PfAddr} {v : Words}

-- What an event rule with this address accepts.
def AddrCode.SelectsEvent (code : AddrCode) (v : Words) : Prop :=
  code.active → (addrMatch v.toNet16 code.ip.toNet16 code.mask.toNet16 ↔ code.invert = false)

-- Both kinds of rules read a code in the same way.
theorem AddrCode.selectsEvent_iff {code : AddrCode} : code.SelectsEvent v ↔ code.Selects6 v := by
  rw [SelectsEvent, Selects6, Selects, addrMatch_iff, wordsFromNet_toNet16]

-- The ranges that a sequence of tests leads to.
inductive PfAddr.Reached : PfAddr → Prop
  | full : Reached .full
  | apply {a a' : PfAddr} {x : Bool} (test : Wd.Test) (arg : Words) (h : Reached a)
    (ht : test ≠ .other) (ha : a.apply test arg = some (a', x)) : Reached a'

-- The rules accept the addresses of the range: exactly those if the encoder says so.
def PfAddr.Meant (a : PfAddr) : Prop :=
  ∀ v : Words,
    ((encodeAddr a).exact → ((encodeAddr a).Selects6 v ↔ a.Mem v) ∧
      ((encodeAddr a).SelectsEvent v ↔ a.Mem v)) ∧
    (a.Mem v → (encodeAddr a).Selects6 v ∧ (encodeAddr a).SelectsEvent v)

-- The mapped addresses without a point are taken for all addresses without it.
theorem PfAddr.Punctured4.surplus (h : a.Punctured4) :
    (encodeAddr a).exact ∧ ∃ v, (encodeAddr a).Selects6 v ∧ ¬a.Mem v := by
  obtain ⟨hl, hh, hx⟩ := h
  obtain ⟨x, hx⟩ := Option.isSome_iff_exists.mp hx
  have hf : ¬a.isFull := by simp [PfAddr.isFull, hx]
  have hc : encodeAddr a = holeCode x := by
    rw [encodeAddr, if_neg hf, hx]
    simp [hl, hh]
  rw [hc]
  refine ⟨rfl, ?_⟩
  simp only [selects6_holeCode, PfAddr.Mem, hl, hh]
  by_cases h0 : x.value = 0
  case pos => exact ⟨.ones, by simp [h0], by simp⟩
  case neg => exact ⟨.zero, by simpa using Ne.symm h0, by simp⟩

end AddrCode

theorem encodeAddr_meant_iff (a : PfAddr) :
    a.Meant ↔ ¬(a.lo.value = lo4.value ∧ a.hi.value = hi4.value ∧ a.excl.isSome) := by
  constructor
  case mp =>
    intro h hp
    have ⟨he, v, hs, hm⟩ := PfAddr.Punctured4.surplus hp
    exact hm <| ((h v).left he).left.mp hs
  case mpr =>
    intro hp v
    have hc := encodeAddr_covers6 a v
    simp only [AddrCode.selectsEvent_iff, and_self]
    exact ⟨fun he => ⟨hc.exact ⟨he, hp⟩, hc.sound⟩, hc.sound⟩

-- `localAddr >= ::ffff:0.0.0.0 and localAddr <= ::ffff:255.255.255.255 and localAddr != 192.0.2.1`
def mappedBut : PfAddr where
  lo   := lo4
  hi   := hi4
  excl := some (.mapped 0xC0000201)

theorem encodeAddr_not_meant : mappedBut.Reached ∧ (encodeAddr mappedBut).exact = true ∧
    (encodeAddr mappedBut).Selects6 .zero ∧ (encodeAddr mappedBut).SelectsEvent .zero ∧
    ¬mappedBut.Mem .zero := by
  have hlo : { PfAddr.full with lo := lo4 }.Reached := .apply .geq lo4 .full (by decide) rfl
  have hhi : { PfAddr.full with lo := lo4, hi := hi4 }.Reached := .apply .leq hi4 hlo (by decide) rfl
  have hr : mappedBut.Reached := .apply .neq (.mapped 0xC0000201) hhi (by decide) rfl
  have hs : (encodeAddr mappedBut).Selects6 .zero := by
    rw [show encodeAddr mappedBut = holeCode (.mapped 0xC0000201) by rfl, selects6_holeCode]
    decide
  exact ⟨hr, rfl, hs, AddrCode.selectsEvent_iff.mpr hs, by simp [mappedBut, PfAddr.Mem]⟩

end Prefilter
