import EbpfDivert.Prefilter.Theorems.Family
import EbpfDivert.Prefilter.Events
import EbpfDivert.Handle.Events

open Wd (Test Field Insn)
open Shared
open Handle (wordsFromNet eventAddress)

namespace Prefilter

variable {e : DivertEvent} {c c' : Cube} {φ : Prop} {test : Test} {arg v : Nat} {insn : Insn} {b : Bool}

-- The events a cube stands for.
@[mk_iff]
structure Cube.MemEvent (c : Cube) (e : DivertEvent) : Prop where
  event : c.event.Mem e.event.toNat
  ver   : ∀ v ∈ c.ver, e.family = v.code
  proto : c.proto.Mem e.protocol.toNat
  sport : c.sport.Mem e.localPort.toNat
  dport : c.dport.Mem e.remotePort.toNat
  pid   : c.pid.Mem e.pid.toNat
  src   : c.src.Mem (wordsFromNet e.localAddr)
  dst   : c.dst.Mem (wordsFromNet e.remoteAddr)

theorem Cube.memEvent_init (he : e.event.toNat < 16) : Cube.init.MemEvent e := by
  constructor <;> simp [init] <;> omega

abbrev EventSplits (e : DivertEvent) (c : Cube) (φ : Prop) (cs : List Cube) : Prop :=
  DecisionGraph.Splits (·.exact) (·.MemEvent e) c φ cs

namespace EventSplits

theorem widen : EventSplits e c φ [c.widen] :=
  .of_inexact (by simp [Cube.widen]) fun hm => { hm with }

variable (ht : test ≠ .other)
include ht

theorem event : EventSplits e c (test.Sat e.event.toNat arg) ((c.event.apply test arg).map
    fun (r, x) => { c with event := r, exact := c.exact && x }).toList :=
  .component Range.exists_apply (Range.of_apply · ht) (·.event)
    (fun hm hr => { hm with event := hr })
    (fun hm => ⟨hm.event, fun hr => { hm with event := hr }⟩)
    (by simp)

theorem pid : EventSplits e c (test.Sat e.pid.toNat arg) ((c.pid.apply test arg).map
    fun (r, x) => { c with pid := r, exact := c.exact && x }).toList :=
  .component Range.exists_apply (Range.of_apply · ht) (·.pid)
    (fun hm hr => { hm with pid := hr })
    (fun hm => ⟨hm.pid, fun hr => { hm with pid := hr }⟩)
    (by simp)

theorem withProto : EventSplits e c (test.Sat e.protocol.toNat arg) (c.withProto test arg).toList :=
  .component Range.exists_apply (Range.of_apply · ht) (·.proto)
    (fun hm hr => { hm with proto := hr })
    (fun hm => ⟨hm.proto, fun hr => { hm with proto := hr }⟩)
    (by simp)

theorem localPort : EventSplits e c (test.Sat e.localPort.toNat arg)
    (c.withPort true test arg).toList :=
  .component Range.exists_apply (Range.of_apply · ht) (·.sport)
    (fun hm hr => { hm with sport := hr })
    (fun hm => ⟨hm.sport, fun hr => { hm with sport := hr }⟩)
    (by simp)

theorem remotePort : EventSplits e c (test.Sat e.remotePort.toNat arg)
    (c.withPort false test arg).toList :=
  .component Range.exists_apply (Range.of_apply · ht) (·.dport)
    (fun hm hr => { hm with dport := hr })
    (fun hm => ⟨hm.dport, fun hr => { hm with dport := hr }⟩)
    (by simp)

theorem localAddr {w : Words} : EventSplits e c
    (test.Sat (wordsFromNet e.localAddr).value w.value) (c.withAddr true test w).toList :=
  .component PfAddr.exists_apply (PfAddr.of_apply · ht) (·.src)
    (fun hm hr => { hm with src := hr })
    (fun hm => ⟨hm.src, fun hr => { hm with src := hr }⟩)
    (by simp)

theorem remoteAddr {w : Words} : EventSplits e c
    (test.Sat (wordsFromNet e.remoteAddr).value w.value) (c.withAddr false test w).toList :=
  .component PfAddr.exists_apply (PfAddr.of_apply · ht) (·.dst)
    (fun hm hr => { hm with dst := hr })
    (fun hm => ⟨hm.dst, fun hr => { hm with dst := hr }⟩)
    (by simp)

-- The protocol decides whether an event belongs to TCP or UDP.
theorem protoTest {proto : BitVec 8} :
    EventSplits e c (test.SatSigned insn.neg (decide (e.protocol = proto)).toNat
      (insn.arg.word 0).toNat)
      (branchBool insn test c none fun b =>
        (c.withProto (if b then .eq else .neq) proto.toNat).toList) := by
  refine branchBool_splits ht (by simp) fun b _ => ?_
  cases b
  case false =>
    have h : EventSplits e c (Test.neq.Sat _ proto.toNat) _ := withProto (by simp)
    exact h.congr fun _ => by simp [Test.Sat, BitVec.toNat_inj]
  case true =>
    have h : EventSplits e c (Test.eq.Sat _ proto.toNat) _ := withProto (by simp)
    exact h.congr fun _ => by simp [Test.Sat, BitVec.toNat_inj]

end EventSplits

-- The value of the fields that the rules can express. Events have no IP headers.
def eventValue (e : DivertEvent) : Field → Option Nat
  | .zero | .ip | .ipv6 => some 0
  | .event      => some e.event.toNat
  | .processId  => some e.pid.toNat
  | .protocol   => some e.protocol.toNat
  | .localPort  => some e.localPort.toNat
  | .remotePort => some e.remotePort.toNat
  | .localAddr  => some (wordsFromNet e.localAddr).value
  | .remoteAddr => some (wordsFromNet e.remoteAddr).value
  | .tcp        => some (decide (e.protocol = Wd.ipprotoTcp)).toNat
  | .udp        => some (decide (e.protocol = Wd.ipprotoUdp)).toNat
  | _           => none

-- What the evaluator is called with when an event of the socket layer is delivered.
def eventInput (sniff : Bool) (hash : BitVec 64) (e : DivertEvent) : Wd.Input :=
  (eventAddress .socket sniff e e.event).input hash [] none

section

variable {sniff : Bool} {hash : BitVec 64} (ht : insn.test ≠ .other)
include ht

theorem answer_event (hf : eventValue e insn.field = some v) :
    Wd.answer (eventInput sniff hash e) insn =
      some (decide (insn.test.SatSigned insn.neg v (operand insn))) := by
  have narrow {n : Nat} {w : BitVec n} (hv : Wd.validateField .socket insn.field)
      (hr : Wd.readField (eventInput sniff hash e) insn.field insn.arg = .narrow (w.setWidth 32))
      (hw : n ≤ 32) : Wd.answer (eventInput sniff hash e) insn =
        some (decide (insn.test.SatSigned insn.neg w.toNat (insn.arg.word 0).toNat)) := by
    rw [Wd.answer_narrow hv hr ht, BitVec.toNat_setWidth_of_le hw]
  obtain ⟨f, test, _, _, neg, arg⟩ := insn
  cases f <;> cases hf
  case zero       => exact Wd.answer_narrow rfl rfl ht
  case ip | ipv6  => exact Wd.answer_flag (f := false) rfl rfl ht
  case event      => exact narrow rfl rfl (by decide)
  case processId  => exact Wd.answer_narrow rfl rfl ht
  case protocol   => exact narrow rfl rfl (by decide)
  case localPort  => exact narrow rfl rfl (by decide)
  case remotePort => exact narrow rfl rfl (by decide)
  case localAddr  => exact Wd.answer_wide rfl rfl ht
  case remoteAddr => exact Wd.answer_wide rfl rfl ht
  case tcp | udp  => exact Wd.answer_flag rfl rfl ht

-- One outcome of a test of a field that the rules can express.
theorem answer_event_iff (hf : eventValue e insn.field = some v) :
    Wd.answer (eventInput sniff hash e) insn = some b ↔
      (if b then insn.test else negateTest insn.test).SatSigned insn.neg v (operand insn) := by
  rw [answer_event ht hf]
  cases b <;> simp [negateTest_satSigned ht]

end

-- What `pf_branch` takes for the result of a test on an event, none if it drops the event.
def pfAnswerEvent (x : Wd.Input) (insn : Insn) : Option Bool :=
  if insn.neg then
    match insn.field with
    | .zero | .ip | .ipv6 => some (zeroTest insn.test (insn.arg.word 0).toNat true)
    | .event | .processId | .protocol | .localPort | .remotePort | .localAddr | .remoteAddr => none
    | _ => Wd.answer x insn
  else
    Wd.answer x insn

theorem pfAnswerEvent_unsigned {x : Wd.Input} (hn : insn.neg = false) :
    pfAnswerEvent x insn = Wd.answer x insn := by
  simp [pfAnswerEvent, hn]

section

variable {sniff : Bool} {hash : BitVec 64} (ht : insn.test ≠ .other)
include ht

theorem pfAnswerEvent_zero (hf : eventValue e insn.field = some 0)
    (hz : insn.field = .zero ∨ insn.field = .ip ∨ insn.field = .ipv6) :
    pfAnswerEvent (eventInput sniff hash e) insn =
      some (zeroTest insn.test (insn.arg.word 0).toNat insn.neg) := by
  cases hn : insn.neg
  case true => rcases hz with hz | hz | hz <;> simp [pfAnswerEvent, hn, hz]
  case false =>
    have ho : operand insn = (insn.arg.word 0).toNat := by
      rcases hz with hz | hz | hz <;> simp [hz, operand]
    rw [pfAnswerEvent_unsigned hn, answer_event ht hf, zeroTest_eq ht, ho, hn]
    rfl

theorem pfBranch_event_splits :
    EventSplits e c (pfAnswerEvent (eventInput sniff hash e) insn = some b) (pfBranch true insn b c) := by
  have ht' : (if b then insn.test else negateTest insn.test) ≠ .other := by
    cases b <;> simp [ht, negateTest_ne_other ht]
  have key {v cs} (hf : eventValue e insn.field = some v)
      (hp : pfAnswerEvent (eventInput sniff hash e) insn = Wd.answer (eventInput sniff hash e) insn)
      (h : EventSplits e c ((if b then insn.test else negateTest insn.test).SatSigned insn.neg v
        (operand insn)) cs) :
      EventSplits e c (pfAnswerEvent (eventInput sniff hash e) insn = some b) cs :=
    h.congr fun _ => by rw [hp, answer_event_iff ht hf]
  have guarded {v o} (hf : eventValue e insn.field = some v)
      (hp : insn.neg → pfAnswerEvent (eventInput sniff hash e) insn = none)
      (h : EventSplits e c ((if b then insn.test else negateTest insn.test).Sat v (operand insn))
        o.toList) :
      EventSplits e c (pfAnswerEvent (eventInput sniff hash e) insn = some b) (guardNeg insn.neg o) := by
    cases hn : insn.neg
    case true  => exact .nil (by simp [hp hn])
    case false => exact key hf (pfAnswerEvent_unsigned hn) (by simpa [hn] using guardNeg_splits rfl h)
  have zero (hf : eventValue e insn.field = some 0)
      (hz : insn.field = .zero ∨ insn.field = .ip ∨ insn.field = .ipv6) :
      pfAnswerEvent (eventInput sniff hash e) insn =
        some (zeroTest insn.test (insn.arg.word 0).toNat insn.neg) :=
    pfAnswerEvent_zero ht hf hz
  obtain ⟨f, test, _, _, neg, arg⟩ := insn
  cases f <;> simp only [pfBranch, pfBranchFrom, pfBranchEvent, reduceCtorEq, ↓reduceIte]
  case zero =>
    rw [zero rfl (by simp), Option.some.injEq]
    exact .ite .rfl
  case ip | ipv6 =>
    rw [zero rfl (by simp), Option.some.injEq]
    refine .ite ?_
    cases b <;> simp [zeroTest_negateTest ht]
  case event      => exact guarded rfl (if_pos ·) <| EventSplits.event ht'
  case processId  => exact guarded rfl (if_pos ·) <| EventSplits.pid ht'
  case protocol   => exact guarded rfl (if_pos ·) <| EventSplits.withProto ht'
  case localPort  => exact guarded rfl (if_pos ·) <| EventSplits.localPort ht'
  case remotePort => exact guarded rfl (if_pos ·) <| EventSplits.remotePort ht'
  case localAddr  => exact guarded rfl (if_pos ·) <| EventSplits.localAddr ht'
  case remoteAddr => exact guarded rfl (if_pos ·) <| EventSplits.remoteAddr ht'
  case tcp | udp  => exact key rfl (ite_self _) <| EventSplits.protoTest ht'
  all_goals exact .widen

end

-- On the event layers at most one cube is left.
theorem pfBranch_event_unique {c₁ c₂ : Cube} (h₁ : c₁ ∈ pfBranch true insn b c)
    (h₂ : c₂ ∈ pfBranch true insn b c) : c₁ = c₂ := by
  have option {o : Option Cube} (h₁ : c₁ ∈ o.toList) (h₂ : c₂ ∈ o.toList) : c₁ = c₂ :=
    Option.some.inj ((Option.mem_toList.mp h₁).symm.trans (Option.mem_toList.mp h₂))
  have guarded {o : Option Cube} (h₁ : c₁ ∈ guardNeg insn.neg o) (h₂ : c₂ ∈ guardNeg insn.neg o) :
      c₁ = c₂ :=
    Option.some.inj ((mem_guardNeg h₁).symm.trans (mem_guardNeg h₂))
  have ite {φ : Prop} [Decidable φ] (h₁ : c₁ ∈ if φ then [c] else [])
      (h₂ : c₂ ∈ if φ then [c] else []) : c₁ = c₂ := by
    split_ifs at h₁ h₂
    case pos => exact (List.mem_singleton.mp h₁).trans (List.mem_singleton.mp h₂).symm
    case neg => nomatch h₁
  obtain ⟨f, test, _, _, neg, arg⟩ := insn
  cases f <;>
    simp only [pfBranch, pfBranchFrom, pfBranchEvent, reduceCtorEq, ↓reduceIte] at h₁ h₂
  case zero | ip | ipv6 => exact ite h₁ h₂
  case event | processId | protocol | localPort | remotePort | localAddr | remoteAddr =>
    exact guarded h₁ h₂
  case tcp | udp =>
    rw [branchBool] at h₁ h₂
    split at h₁
    case _ => exact absurd h₁ List.not_mem_nil
    case _ h =>
      simp only [h, List.mem_singleton] at h₂
      exact (List.mem_singleton.mp h₁).trans h₂.symm
    case _ h =>
      simp only [h] at h₂
      exact option h₁ h₂
  all_goals exact (List.mem_singleton.mp h₁).trans (List.mem_singleton.mp h₂).symm

-- Tests for equality only move the lower end of the addresses by one at a time, unless they leave
-- a single address.
def PfAddr.NearFull (n : Nat) (a : PfAddr) : Prop :=
  a.lo.value ≤ n ∨ (a.lo.value = a.hi.value ∧ a.excl = none)

namespace PfAddr.NearFull

variable {n m : Nat} {a a' : PfAddr} {w : Words}

theorem mono (h : a.NearFull n) (hn : n ≤ m) : a.NearFull m :=
  h.imp_left (·.trans hn)

theorem apply {x : Bool} (h : a.NearFull n) (ht : test = .eq ∨ test = .neq)
    (ha : a.apply test w = some (a', x)) : a'.NearFull (n + 1) := by
  rcases ht with rfl | rfl
  case inl =>
    simp only [PfAddr.apply] at ha
    split_ifs at ha
    cases ha
    exact .inr ⟨rfl, rfl⟩
  case inr =>
    simp only [PfAddr.apply, Words.cmp128_eq_lt, Words.cmp128_eq_gt, Words.cmp128_eq_eq] at ha
    split_ifs at ha with ho hb hl hh hx <;> cases ha
    case pos => exact h.mono (by omega)
    case pos =>
      have hi := a.hi.value_lt
      have := Words.value_inc128 (a := a.lo) (by omega)
      refine .inl ?_
      rcases h with h | h <;> grind
    case pos => exact h.imp Nat.le_succ_of_le fun h => by omega
    case pos => exact h.mono (by omega)
    case neg => exact h.imp Nat.le_succ_of_le fun h => by omega

end PfAddr.NearFull

def Cube.NearFull (n : Nat) (c : Cube) : Prop :=
  ∀ useSrc, (c.addr useSrc).NearFull n

def AddrEq (insn : Insn) : Prop :=
  insn.field = .localAddr ∨ insn.field = .remoteAddr → insn.test = .eq ∨ insn.test = .neq

namespace Cube.NearFull

variable {n : Nat}

theorem init : Cube.init.NearFull 0 :=
  fun useSrc => by cases useSrc <;> exact .inl le_rfl

theorem withAddr {useSrc : Bool} {w : Words} (h : c.NearFull n) (ht : test = .eq ∨ test = .neq)
    (hc : c.withAddr useSrc test w = some c') : c'.NearFull (n + 1) := by
  obtain ⟨a, x, ha, hu, _⟩ := Cube.withAddr_eq_some hc
  intro useSrc'
  rw [hu, Function.update_apply]
  split_ifs with he
  case pos => exact (h _).apply ht ha
  case neg => exact (h _).mono n.le_succ

theorem frame {k : Bool} (h : c.NearFull n) (hc : Frame k c c') : c'.NearFull (n + 1) :=
  fun useSrc => by rw [hc.addr]; exact (h useSrc).mono n.le_succ

theorem pfBranch (h : c.NearFull n) (ha : AddrEq insn) (hc : c' ∈ pfBranch true insn b c) :
    c'.NearFull (n + 1) := by
  have addr {useSrc} (hf : insn.field = .localAddr ∨ insn.field = .remoteAddr)
      (hc : c' ∈ guardNeg insn.neg
        (c.withAddr useSrc (if b then insn.test else negateTest insn.test) insn.arg)) :
      c'.NearFull (n + 1) := by
    refine h.withAddr ?_ <| mem_guardNeg hc
    cases b <;> rcases ha hf with ht | ht <;> simp [ht, negateTest]
  obtain ⟨f, test, _, _, neg, arg⟩ := insn
  cases f <;> simp only [Prefilter.pfBranch, pfBranchFrom, pfBranchEvent, reduceCtorEq, ↓reduceIte] at hc
  case localAddr  => exact addr (.inl rfl) hc
  case remoteAddr => exact addr (.inr rfl) hc
  case zero | ip | ipv6 => exact h.frame <| .ite hc
  case event | processId =>
    obtain ⟨_, _, rfl⟩ := Option.map_eq_some_iff.mp <| mem_guardNeg hc
    exact h.frame <| .of_eq rfl rfl rfl
  case protocol => exact h.frame <| .withProto <| mem_guardNeg hc
  case localPort | remotePort => exact h.frame <| .withPort <| mem_guardNeg hc
  case tcp | udp =>
    rcases mem_branchBool hc with rfl | ⟨_, hc⟩
    case inl => exact h.frame .refl
    case inr => exact h.frame <| .withProto <| Option.mem_toList.mp hc
  all_goals exact h.frame <| .singleton hc <| .of_eq rfl rfl rfl

end Cube.NearFull

end Prefilter
