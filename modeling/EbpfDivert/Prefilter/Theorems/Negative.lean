import EbpfDivert.Prefilter.Theorems.Events
import EbpfDivert.Prefilter.Theorems.Network

open Wd (Test Insn)
open Shared
open Handle (eventTable)
open Kernel (shouldBlock)

-- Tests with a negative argument, most of which only serialized objects have.
namespace Prefilter

variable {p : PfPkt} {x : Wd.Input} {insn : Insn} {f : Wd.Filter} {e : DivertEvent}

-- `zero_test` forgets the sign of the argument if it is zero, which does not change these tests.
def ZeroOk (insn : Insn) : Prop :=
  insn.arg.word 0 ≠ 0 ∨ insn.test = .lt ∨ insn.test = .geq

theorem zeroOk_iff (ht : insn.test ≠ .other) (v arg : Nat) : ZeroOk insn ↔
    zeroTest insn.test (insn.arg.word 0).toNat true = decide (insn.test.SatSigned true v arg) := by
  have hz : insn.arg.word 0 = 0 ↔ (insn.arg.word 0).toNat = 0 := BitVec.toNat_inj.symm
  rw [ZeroOk, zeroTest, ← pfTest_signed ht, if_pos rfl, if_pos rfl, Ne, hz]
  by_cases h : (insn.arg.word 0).toNat = 0
  case neg => simp [h]
  case pos => cases hs : insn.test <;> simp_all [pfTest, Test.holds]

-- The tests that are lowered as they are meant for a packet. A test on the local or remote endpoint
-- has to fail, and one that is taken for impossible needs a header that the packet does not have.
structure NegOk (p : PfPkt) (insn : Insn) : Prop where
  zero     : insn.field = .zero ∨ insn.field = .event → ZeroOk insn
  endpoint : ∀ isLocal, insn.field = addrField isLocal ∨ insn.field = portField isLocal →
    insn.test = .eq ∨ insn.test = .lt ∨ insn.test = .leq
  header   : ∀ h ∈ trackedHeader insn.field, rejectsNeg insn → ¬p.Has h

-- The tests that are lowered as they are meant for an event.
structure NegOkEvent (insn : Insn) : Prop where
  zero  : insn.field = .zero ∨ insn.field = .ip ∨ insn.field = .ipv6 → ZeroOk insn
  field : insn.field ∉
    [.event, .processId, .protocol, .localPort, .remotePort, .localAddr, .remoteAddr]

theorem answer_endpoint_neg (d : Describes p x) {isLocal : Bool}
    (hf : insn.field = addrField isLocal ∨ insn.field = portField isLocal)
    (hv : Wd.validateField x.layer insn.field) (ht : insn.test ≠ .other) (hn : insn.neg) :
    Wd.answer x insn = some (decide (insn.test.SatSigned true 0 0)) := by
  rcases hf with hf | hf
  case inl =>
    rw [d.answer_endpointAddr hf hv ht, hn]
    rfl
  case inr =>
    have hl := d.layer_network (.inr hf) hv
    have ⟨w, hr⟩ : ∃ w, Wd.readField x insn.field insn.arg = .narrow w := by
      cases isLocal <;> simp [hf, portField, Wd.readField, Wd.Input.layered, hl]
    rw [Wd.answer_narrow hv hr ht, hn]
    rfl

section

variable (d : Describes p x) (ht : insn.test ≠ .other) (hn : insn.neg)
variable (hv : Wd.validateField x.layer insn.field)
include d ht hn hv

theorem pfAnswer_zero_iff (hz : insn.field = .zero ∨ insn.field = .event) :
    pfAnswer p x insn = Wd.answer x insn ↔ ZeroOk insn := by
  have hp : isPresence insn.field ∨ insn.field = .zero := hz.symm.imp_left fun hz => by rw [hz]; rfl
  rw [pfAnswer_zero d hz hv ht, eq_comm, d.answer_presence hp hv ht, hn, zeroOk_iff ht 0 0]
  cases zeroTest insn.test (insn.arg.word 0).toNat true <;> simp

theorem pfAnswer_endpoint_iff {isLocal : Bool}
    (hf : insn.field = addrField isLocal ∨ insn.field = portField isLocal) :
    pfAnswer p x insn = Wd.answer x insn ↔
      insn.test = .eq ∨ insn.test = .lt ∨ insn.test = .leq := by
  have ha := answer_endpoint_neg d hf hv ht hn
  have hs : insn.test = .eq ∨ insn.test = .lt ∨ insn.test = .leq ↔
      ¬insn.test.SatSigned true 0 0 := by
    cases hs : insn.test <;> simp_all
  rw [Option.ext_iff, hs]
  simp only [pfAnswer_endpoint hn hf, ha]
  by_cases h : insn.test.SatSigned true 0 0 <;> simp [h]

omit hv in
theorem pfAnswer_rejected_iff {h : Wd.Header} (hf : trackedHeader insn.field = some h)
    (hr : rejectsNeg insn) : pfAnswer p x insn = Wd.answer x insn ↔ ¬p.Has h := by
  rw [Option.ext_iff]
  simp only [pfAnswer_rejected d hf hn hr ht, d.answer_tracked hf ht]
  by_cases hh : p.Has h <;> simp [hh]

-- Only these tests are lowered as they are meant.
theorem pfAnswer_eq_iff : pfAnswer p x insn = Wd.answer x insn ↔ NegOk p insn := by
  constructor
  case mp =>
    intro h
    constructor
    case zero     => exact fun hz => (pfAnswer_zero_iff d ht hn hv hz).mp h
    case endpoint => exact fun _ hf => (pfAnswer_endpoint_iff d ht hn hv hf).mp h
    case header   => exact fun _ hf hr => (pfAnswer_rejected_iff d ht hn hf hr).mp h
  case mpr =>
    intro h
    by_cases hz : insn.field = .zero ∨ insn.field = .event
    case pos => exact (pfAnswer_zero_iff d ht hn hv hz).mpr (h.zero hz)
    by_cases he : ∃ l, insn.field = addrField l ∨ insn.field = portField l
    case pos =>
      obtain ⟨l, hf⟩ := he
      exact (pfAnswer_endpoint_iff d ht hn hv hf).mpr (h.endpoint l hf)
    by_cases hr : rejectsNeg insn
    case pos =>
      obtain ⟨_, hf⟩ := Option.isSome_iff_exists.mp (rejectsNeg_isSome hr)
      exact (pfAnswer_rejected_iff d ht hn hf hr).mpr (h.header _ hf hr)
    exact pfAnswer_other (not_or.mp hz) (fun _ => by simpa using hr)
      fun l => not_or.mp fun hf => he ⟨l, hf⟩

end

theorem NegOk.pfAnswer_eq (d : Describes p x) (ht : insn.test ≠ .other)
    (h : insn.neg → NegOk p insn) : pfAnswer p x insn = Wd.answer x insn := by
  cases hn : insn.neg
  case false => exact pfAnswer_unsigned hn
  case true =>
    cases hv : Wd.validateField x.layer insn.field
    case false => rw [pfAnswer_invalid hv, Wd.answer, hv, if_neg Bool.false_ne_true]
    case true  => exact (pfAnswer_eq_iff d ht hn hv).mpr (h hn)

theorem pfAnswerEvent_eq_iff {sniff : Bool} {hash : BitVec 64} (ht : insn.test ≠ .other)
    (hn : insn.neg) :
    pfAnswerEvent (eventInput sniff hash e) insn = Wd.answer (eventInput sniff hash e) insn ↔
      NegOkEvent insn := by
  have zero (hz : insn.field = .zero ∨ insn.field = .ip ∨ insn.field = .ipv6) :
      pfAnswerEvent (eventInput sniff hash e) insn = Wd.answer (eventInput sniff hash e) insn ↔
        ZeroOk insn := by
    have hv : eventValue e insn.field = some 0 := by
      rcases hz with hz | hz | hz <;> simp [hz, eventValue]
    rw [pfAnswerEvent_zero ht hv hz, answer_event ht hv, hn, Option.some.injEq, zeroOk_iff ht _ _]
  constructor
  case mp =>
    intro h
    refine ⟨fun hz => (zero hz).mp h, fun hg => ?_⟩
    have hp : pfAnswerEvent (eventInput sniff hash e) insn = none := by
      simp only [List.mem_cons, List.not_mem_nil, or_false] at hg
      rcases hg with hg | hg | hg | hg | hg | hg | hg <;> simp [pfAnswerEvent, hn, hg]
    obtain ⟨v, hv⟩ : ∃ v, eventValue e insn.field = some v := by
      simp only [List.mem_cons, List.not_mem_nil, or_false] at hg
      rcases hg with hg | hg | hg | hg | hg | hg | hg <;> simp [eventValue, hg]
    rw [hp, answer_event ht hv] at h
    exact Option.some_ne_none _ h.symm
  case mpr =>
    rintro ⟨hz, hg⟩
    by_cases hf : insn.field = .zero ∨ insn.field = .ip ∨ insn.field = .ipv6
    case pos => exact (zero hf).mpr (hz hf)
    simp only [List.mem_cons, List.not_mem_nil, or_false, not_or] at hg hf
    simp only [pfAnswerEvent, hn, ↓reduceIte]
    split <;> simp_all

theorem NegOkEvent.pfAnswer_eq {sniff : Bool} {hash : BitVec 64} (ht : insn.test ≠ .other)
    (h : insn.neg → NegOkEvent insn) :
    pfAnswerEvent (eventInput sniff hash e) insn = Wd.answer (eventInput sniff hash e) insn := by
  cases hn : insn.neg
  case false => exact pfAnswerEvent_unsigned hn
  case true  => exact (pfAnswerEvent_eq_iff ht hn).mpr (h hn)

-- The filter accepts the event with other addresses, which the rules mistake its own for.
def ConfusedEvent (object : List Insn) (sniff : Bool) (hash : BitVec 64) (e : DivertEvent) : Prop :=
  ∃ l r useSrc, (Wd.graph object).Accepts
      (pfAnswerEvent (eventInput sniff hash (DivertEvent.moved e l r))) 0 ∧
    Mistaken .v6 (EventTwins object (fun e => pfAnswerEvent (eventInput sniff hash e))
      (DivertEvent.moved e l r) useSrc) (Handle.wordsFromNet (DivertEvent.addr e useSrc))

-- `ip.TTL > -1`
def ttlFilter : Wd.Filter where
  layer  := .network
  object := [⟨.ipTtl, .gt, Wd.resultAccept, Wd.resultReject, true, .ofNarrow 1⟩]

-- `tcp != -1`
def tcpFilter : Wd.Filter where
  layer  := .socket
  object := [⟨.tcp, .neq, Wd.resultAccept, Wd.resultReject, true, .ofNarrow 1⟩]

-- `ip.Protocol != -5`
def protocolFilter : Wd.Filter where
  layer  := .network
  object := [⟨.ipProtocol, .neq, Wd.resultAccept, Wd.resultReject, true, .ofNarrow 5⟩]

end Prefilter
