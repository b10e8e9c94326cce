import EbpfDivert.Handle.Theorems.Fate
import EbpfDivert.Handle.Theorems.Sound
import EbpfDivert.Prefilter.Theorems.Events
import EbpfDivert.Setup.Theorems.Open
import EbpfDivert.Wd.Theorems.Analyze
import Mathlib

open Shared Prefilter
open Handle (flagSniff)

-- What the analysis of the filter is used for when a handle is opened.
namespace Handle

open Kernel (Skb checkPlace)

variable {h : Handle} {env : ConfigEnv} {skb : Skb} {direction : Dir} {hash : BitVec 64} {packet : Bytes}
  {addr : Wd.Address}

theorem filterEval_accepts {f : Wd.Filter} (hp : f.layer = .network ∨ f.layer = .networkForward)
    (h : Wd.filterEval f hash packet addr = some true) : ∃ info,
    Wd.executeFilter f.object (addr.input hash packet (some info)) = some true ∧ addr.layer = f.layer := by
  rw [Wd.filterEval] at h
  split_ifs at h with hl hn
  case neg => exact absurd (not_not.mp hl ▸ hp) hn
  obtain ⟨info, -, h⟩ := Option.bind_eq_some_iff.mp h
  split_ifs at h
  exact ⟨info, h, not_not.mp hl⟩

-- The flag that keeps a handle from looking at one of the directions.
def blind : Dir → BitVec 32
  | .inbound  => cfgNoInbound
  | .outbound => cfgNoOutbound

-- A handle looks at a direction in which its filter accepts anything.
theorem config_sees (hl : h.layer = .network ∨ h.layer = .networkForward)
    (he : env.filterFlags = Wd.analyzeFilter h.layer h.filter.object)
    (hd : addr.outbound = decide (direction = .outbound))
    (ha : Wd.filterEval h.filter hash packet addr = some true) :
    Flags.has (h.config env).flags (blind direction) = false := by
  obtain ⟨info, hx, hal⟩ := filterEval_accepts (h.filter_layer.symm ▸ hl) ha
  have hs := Wd.analyzeFilter_summarizes hx
  rw [show (addr.input hash packet (some info)).layer = h.layer from hal.trans h.filter_layer, ← he] at hs
  have hlayer : (addr.input hash packet (some info)).layer = .network ∨
      (addr.input hash packet (some info)).layer = .networkForward := by
    rwa [show (addr.input hash packet (some info)).layer = h.layer from hal.trans h.filter_layer]
  cases direction
  case inbound =>
    have hi : Flags.has env.filterFlags filterInbound := hs.inbound hlayer hd
    simp [config, blind, hi]
  case outbound =>
    have ho : Flags.has env.filterFlags filterOutbound := hs.outbound hlayer hd
    simp [config, blind, ho]

theorem config_sees_syn :
    Flags.has (synHandle.config { calmConfig with
      filterFlags := Wd.analyzeFilter .network synObject }).flags (blind .outbound) = false := by
  have ha : Wd.filterEval synHandle.filter 0 (synFrame.drop 14) (plainAddress .outbound false false) =
      some true := by decide +kernel
  exact config_sees (.inl rfl) rfl rfl ha

end Handle

namespace Setup

variable {k : Kernel} {self : Process} {env : OpenEnv} {w w' : World} {args : OpenArgs} {f : Wd.Filter}
  {s : Opening} {h : Handle} {e : DivertEvent} {sniff : Bool} {hash : BitVec 64}

-- What cannot be refused in the kernel is refused here.
theorem openEvents_refuses (hl : s.h.layer = .socket) (hs : Flags.has s.h.flags flagSniff = false)
    (hf : Flags.has env.filterFlags filterListenAccept) : openEvents k env f s = .error .opnotsupp s := by
  have hf : Flags.has env.filterFlags 0x1800#64 := hf
  simp [openEvents, bind, EStateM.bind, get, getThe, MonadStateOf.get, EStateM.get, hl, hs, hf, throw,
    throwThe, MonadExceptOf.throw, EStateM.throw]

theorem openLayer_refuses (hl : args.layer = .socket) (hh : s.h.layer = .socket)
    (hs : Flags.has s.h.flags flagSniff = false) (hf : Flags.has env.filterFlags filterListenAccept)
    (hc : env.compiled = .ok f) : ∃ err s', openLayer k self env args s = .error err s' := by
  have hr : openEvents k env f { s with h.filter := some f } = .error .opnotsupp _ :=
    openEvents_refuses hh hs hf
  rw [openLayer]
  cases h₁ : env.fdsErr <;> cases h₂ : env.wakeErr <;>
    simp [check, lift, hc, hl, bind, EStateM.bind, pure, EStateM.pure, throw, throwThe, MonadExceptOf.throw,
      EStateM.throw, modify, modifyGet, MonadStateOf.modifyGet, EStateM.modifyGet, hr]

-- A filter that accepts an event that cannot be refused announces it.
theorem listenAccept_of_accepts (hl : f.layer = .socket) (he : e.event = 5 ∨ e.event = 6)
    (h : Wd.filterEval f hash [] (Handle.eventAddress f.layer sniff e e.event) = some true) :
    Flags.has (Wd.analyzeFilter .socket f.object) filterListenAccept := by
  rw [filterEval_event hl] at h
  have hs {flag} (hm : (e.event.setWidth 32, flag) ∈ Wd.socketFlags) :
      Flags.has (Wd.analyzeFilter .socket f.object) flag :=
    (Wd.analyzeFilter_summarizes h).socket rfl hm
  rw [show filterListenAccept = Wd.filterFlagEventSocketListen ||| Wd.filterFlagEventSocketAccept from rfl,
    Flags.has_or_right, Bool.or_eq_true]
  rcases he with he | he
  case inl => exact .inl (hs (by rw [he]; decide))
  case inr => exact .inr (hs (by rw [he]; decide))

-- A handle that blocks socket operations has a filter that does not accept the two that cannot be
-- refused.
theorem opened_enforceable (ho : ebpfdivertOpen k self env args w = (.ok h, w')) (hl : args.layer = .socket)
    (hs : Flags.has args.flags flagSniff = false) (hc : env.compiled = .ok f) (hfl : f.layer = .socket)
    (hf : env.filterFlags = Wd.analyzeFilter .socket f.object) (he : e.event = 5 ∨ e.event = 6) :
    Wd.filterEval f hash [] (Handle.eventAddress f.layer sniff e e.event) ≠ some true := by
  intro ha
  have hx : Flags.has env.filterFlags filterListenAccept := hf ▸ listenAccept_of_accepts hfl he ha
  obtain ⟨err, s', hr⟩ : ∃ err s', openLayer k self env args ⟨w, .new env args⟩ = .error err s' :=
    openLayer_refuses hl hl hs hx hc
  rw [ebpfdivertOpen] at ho
  split_ifs at ho
  · simp at ho
  · simp at ho
  · simp [hr] at ho

-- `event == BIND`
def bindFilter : Wd.Filter :=
  ⟨.socket, [⟨.event, .eq, Wd.resultAccept, Wd.resultReject, false, .ofNarrow Wd.eventSocketBind⟩]⟩

def bindEnv : OpenEnv :=
  { smooth [] running with
    compiled    := .ok bindFilter
    filterFlags := Wd.analyzeFilter .socket bindFilter.object }

def listenEvent : DivertEvent :=
  { connectEvent with event := 5 }

theorem opened_enforceable_bind : ∃ h w',
    ebpfdivertOpen .counting ⟨200, 9⟩ bindEnv ⟨.socket, 0, Handle.flagRecvOnly, none⟩ recorded = (.ok h, w') ∧
    Wd.filterEval bindFilter 0 [] (Handle.eventAddress .socket false listenEvent 5) ≠ some true := by
  have ho : ebpfdivertOpen .counting ⟨200, 9⟩ bindEnv ⟨.socket, 0, Handle.flagRecvOnly, none⟩ recorded =
    (.ok _, _) := rfl
  exact ⟨_, _, ho, opened_enforceable (f := bindFilter) (e := listenEvent) ho rfl rfl rfl rfl rfl (.inl rfl)⟩

end Setup
