import EbpfDivert.Wd.Analyze
import EbpfDivert.Wd.Theorems.Execute

namespace Wd

section Assumption

variable {object : List Insn} {x : Input} {insn : Insn} {field : Field} {arg : BitVec 32} {n ttl label : Nat}
  {b : Bool}

-- The inputs that the assumption is about.
def Assumes (x : Input) (field : Field) (arg : BitVec 32) : Prop :=
  ∀ a, readField x field a = .narrow arg

-- The label may lead to acceptance, as the analysis sees it.
def mayAccept (object : List Insn) (field : Field) (arg : BitVec 32) (ip label : Nat) : Bool :=
  condLabel ip (condResults field arg (ip + 1) (object.drop (ip + 1))) label

theorem length_condResults {ip : Nat} : (condResults field arg ip object).length = object.length := by
  induction object generalizing ip
  case nil => rfl
  case cons insn object ih => simp [condResults, ih]

theorem drop_condResults {ip k : Nat} :
    (condResults field arg ip object).drop k = condResults field arg (ip + k) (object.drop k) := by
  induction k generalizing ip object
  case zero => simp
  case succ k ih =>
    cases object
    case nil => simp [condResults]
    case cons insn object =>
      simp only [condResults, List.drop_succ_cons, ih]
      rw [Nat.add_right_comm, Nat.add_assoc]

-- What the analysis says of the instruction at a position.
theorem getElem_condResults (hi : object[n]? = some insn) :
    (condResults field arg 0 object)[n]? = some (condInsn field arg insn
      (mayAccept object field arg n insn.success) (mayAccept object field arg n insn.failure)) := by
  have hd : (condResults field arg 0 object).drop n = condResults field arg (0 + n) (object.drop n) :=
    drop_condResults
  have hn := List.drop_eq_getElem_cons (List.getElem?_eq_some_iff.mp hi).1
  rw [(List.getElem?_eq_some_iff.mp hi).2] at hn
  have hh := congrArg List.head? hd
  rw [List.head?_drop, Nat.zero_add, hn] at hh
  exact hh

-- A label that leads forward is answered by the instruction that it leads to.
theorem mayAccept_of_lt (ha : label ≠ resultAccept) (hr : label ≠ resultReject) (hl : n < label) :
    mayAccept object field arg n label = (condResults field arg 0 object).getD label true := by
  have hd : (condResults field arg 0 object).drop (n + 1) =
      condResults field arg (0 + (n + 1)) (object.drop (n + 1)) := drop_condResults
  rw [Nat.zero_add] at hd
  rw [mayAccept, condLabel, if_neg ha, if_neg hr, if_pos hl, ← hd, List.getD_eq_getElem?_getD,
    List.getD_eq_getElem?_getD, List.getElem?_drop, Nat.add_sub_cancel' hl]

-- The analysis only excludes a label if it excludes what the label leads to.
theorem mayAccept_eq_false (h : mayAccept object field arg n label = false) : label = resultReject ∨
    (label ≠ resultAccept ∧ (condResults field arg 0 object)[label]? = some false) := by
  by_cases hr : label = resultReject
  case pos => exact .inl hr
  case neg =>
    by_cases ha : label = resultAccept
    case pos => simp [mayAccept, condLabel, ha] at h
    case neg =>
      refine .inr ⟨ha, ?_⟩
      by_cases hl : n < label
      case neg => simp [mayAccept, condLabel, ha, hr, hl] at h
      case pos =>
        rw [mayAccept_of_lt ha hr hl, List.getD_eq_getElem?_getD] at h
        cases hg : (condResults field arg 0 object)[label]? <;> simp_all

theorem holds_of_assumes (hx : Assumes x field arg) (hf : insn.field = field) (hn : insn.neg = false)
    (h : answer x insn = some b) : insn.test.holds (compare arg.toNat (insn.arg.word 0).toNat) = some b := by
  rw [answer] at h
  split at h
  case isFalse => cases h
  case isTrue =>
    rw [hf, hx, Reading.narrow] at h
    simpa [compare128, hn, Words.ofNarrow, Words.word_of] using h

-- The instruction is answered as the analysis does it.
theorem condInsn_of_answer {succ fail : Bool} (hx : Assumes x field arg) (h : answer x insn = some b)
    (hc : condInsn field arg insn succ fail = false) : (if b then succ else fail) = false := by
  rw [condInsn] at hc
  split_ifs at hc with hboth hnone hf hargs
  case pos => cases b <;> simp_all
  case neg =>
    have hn : insn.neg = false := by simpa using (not_or.mp hargs).1
    rw [holds_of_assumes hx hf hn h] at hc
    exact hc

-- A run does not come from an instruction that is excluded to acceptance.
theorem executeFilterFrom_ne_true (hx : Assumes x field arg)
    (hc : (condResults field arg 0 object)[n]? = some false) :
    executeFilterFrom object x ttl n ≠ some true := by
  induction ttl generalizing n
  case zero => simp [executeFilterFrom]
  case succ ttl ih =>
    have hn : n < object.length := by
      have hlen : (condResults field arg 0 object).length = object.length := length_condResults
      rw [← hlen]
      exact (List.getElem?_eq_some_iff.mp hc).1
    have hi : object[n]? = some object[n] := List.getElem?_eq_getElem hn
    rw [getElem_condResults hi, Option.some.injEq] at hc
    simp only [executeFilterFrom, List.getD_eq_getElem?_getD, hi, Option.getD_some, Option.bind_eq_bind,
      ne_eq, Option.bind_eq_some_iff, not_exists, not_and]
    intro b hb
    have hm := condInsn_of_answer hx hb hc
    rw [← apply_ite (mayAccept object field arg n)] at hm
    have hnext : mayAccept object field arg n (object[n].next b) = false := hm
    rcases mayAccept_eq_false hnext with hr | ⟨ha, hlabel⟩
    · simp [hr, resultAccept, resultReject]
    · rw [if_neg ha]
      split
      case isTrue => simp
      case isFalse => exact ih hlabel

-- What the analysis excludes is not accepted.
theorem condExecFilter_of_accepts (hx : Assumes x field arg) (h : executeFilter object x = some true) :
    condExecFilter object field arg := by
  by_contra hc
  refine executeFilterFrom_ne_true hx ?_ h
  rw [condExecFilter, Bool.not_eq_true, List.headD_eq_head?_getD] at hc
  rw [← List.head?_eq_getElem?]
  cases hh : (condResults field arg 0 object).head? <;> simp_all

end Assumption

section Summary

variable {object : List Insn} {x : Input} {layer : Layer}

theorem assumes_zero : Assumes x .zero 0 :=
  fun _ => rfl

theorem assumes_event : Assumes x .event x.event :=
  fun _ => rfl

theorem assumes_inbound {b : BitVec 32} (h : b = if x.outbound then 0 else 1) : Assumes x .inbound b := by
  intro a
  rw [h]
  cases ho : x.outbound <;> simp [readField, Reading.flag, ho]

theorem assumes_outbound {b : BitVec 32} (h : b = if x.outbound then 1 else 0) : Assumes x .outbound b := by
  intro a
  rw [h]
  cases ho : x.outbound <;> simp [readField, Reading.flag, ho]

theorem assumes_ip {b : BitVec 32} (h : b = if x.ipHeader.isSome then 1 else 0) : Assumes x .ip b :=
  fun _ => h ▸ rfl

theorem assumes_ipv6 {b : BitVec 32} (h : b = if x.ipv6Header.isSome then 1 else 0) : Assumes x .ipv6 b :=
  fun _ => h ▸ rfl

-- The flag of every event of the socket layer.
def socketFlags : List (BitVec 32 × BitVec 64) :=
  [(eventSocketBind, filterFlagEventSocketBind), (eventSocketConnect, filterFlagEventSocketConnect),
    (eventSocketListen, filterFlagEventSocketListen), (eventSocketAccept, filterFlagEventSocketAccept),
    (eventSocketClose, filterFlagEventSocketClose)]

-- The flags that go with an input.
structure Summarizes (flags : BitVec 64) (x : Input) : Prop where
  inbound  : x.layer = .network ∨ x.layer = .networkForward → x.outbound = false →
    Flags.has flags filterFlagInbound
  outbound : x.layer = .network ∨ x.layer = .networkForward → x.outbound →
    Flags.has flags filterFlagOutbound
  ip       : x.layer ≠ .reflect → x.ipHeader.isSome → x.ipv6Header = none → Flags.has flags filterFlagIp
  ipv6     : x.layer ≠ .reflect → x.ipv6Header.isSome → x.ipHeader = none → Flags.has flags filterFlagIpv6
  deleted  : x.layer = .flow → x.event = eventFlowDeleted → Flags.has flags filterFlagEventFlowDeleted
  socket   : x.layer = .socket → ∀ {flag}, (x.event, flag) ∈ socketFlags → Flags.has flags flag

-- Whatever a filter accepts, the analysis has announced it.
theorem analyzeFilter_summarizes (h : executeFilter object x = some true) :
    Summarizes (analyzeFilter x.layer object) x := by
  have hc {field : Field} {arg : BitVec 32} (hx : Assumes x field arg) : condExecFilter object field arg :=
    condExecFilter_of_accepts hx h
  have hz : condExecFilter object .zero 0#32 := hc assumes_zero
  have he : condExecFilter object .event x.event := hc assumes_event
  constructor
  case inbound =>
    intro hl ho
    have h₁ : condExecFilter object .inbound 1#32 := hc (assumes_inbound (by simp [ho]))
    have h₂ : condExecFilter object .outbound 0#32 := hc (assumes_outbound (by simp [ho]))
    simp [analyzeFilter, hz, h₁, h₂, hl]
  case outbound =>
    intro hl ho
    have h₁ : condExecFilter object .inbound 0#32 := hc (assumes_inbound (by simp [ho]))
    have h₂ : condExecFilter object .outbound 1#32 := hc (assumes_outbound (by simp [ho]))
    simp [analyzeFilter, hz, h₁, h₂, hl]
  case ip =>
    intro hl hi hi6
    have h₁ : condExecFilter object .ip 1#32 := hc (assumes_ip (by simp [hi]))
    have h₂ : condExecFilter object .ipv6 0#32 := hc (assumes_ipv6 (by simp [hi6]))
    simp [analyzeFilter, hz, h₁, h₂, hl]
  case ipv6 =>
    intro hl hi6 hi
    have h₁ : condExecFilter object .ip 0#32 := hc (assumes_ip (by simp [hi]))
    have h₂ : condExecFilter object .ipv6 1#32 := hc (assumes_ipv6 (by simp [hi6]))
    simp [analyzeFilter, hz, h₁, h₂, hl]
  case deleted =>
    intro hl hd
    rw [hd] at he
    simp [analyzeFilter, hz, eventFlags, hl, he]
  case socket =>
    intro hl flag hm
    simp only [socketFlags, List.mem_cons, Prod.mk.injEq, List.not_mem_nil, or_false] at hm
    rcases hm with ⟨hd, rfl⟩ | ⟨hd, rfl⟩ | ⟨hd, rfl⟩ | ⟨hd, rfl⟩ | ⟨hd, rfl⟩ <;>
      · rw [hd] at he
        simp [analyzeFilter, hz, eventFlags, hl, he]

end Summary

end Wd
