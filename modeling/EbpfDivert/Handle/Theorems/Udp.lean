import EbpfDivert.Handle.Udp
import Mathlib.Data.List.Infix

open Shared

namespace Handle

variable {r : EventRecord} {rs : List EventRecord} {udp : Option (List DivertEvent)} {ev : DivertEvent}

namespace EventRecord

def Releases (r : EventRecord) (id : BitVec 64) : Prop :=
  divertEventSize ≤ r.size ∧ Flags.has r.ev.flags evfUdpRelease ∧ r.ev.endpointId = id

instance {id : BitVec 64} : Decidable (r.Releases id) :=
  inferInstanceAs (Decidable (_ ∧ _))

def Establishes (r : EventRecord) : Prop :=
  divertEventSize ≤ r.size ∧ ¬Flags.has r.ev.flags evfUdpRelease ∧ r.ev.protocol = Wd.ipprotoUdp ∧
    r.ev.event = eventFlowEstablished

instance : Decidable r.Establishes :=
  inferInstanceAs (Decidable (_ ∧ _))

theorem Establishes.not_releases {id : BitVec 64} (h : r.Establishes) : ¬r.Releases id :=
  fun hr => h.right.left hr.right.left

end EventRecord

-- The established UDP flows without a later release of their endpoint.
def unreleased : List EventRecord → List DivertEvent
  | []      => []
  | r :: rs =>
    if r.Establishes ∧ ∀ r' ∈ rs, ¬r'.Releases r.ev.endpointId then r.ev :: unreleased rs
    else unreleased rs

theorem unreleased_concat : unreleased (rs ++ [r]) =
    (unreleased rs).filter (¬r.Releases ·.endpointId) ++ if r.Establishes then [r.ev] else [] := by
  induction rs
  case nil => simp [unreleased]
  case cons r' rs ih =>
    have hr : (r'.Establishes ∧ ∀ r₁ ∈ rs ++ [r], ¬r₁.Releases r'.ev.endpointId) ↔
        (r'.Establishes ∧ ∀ r₁ ∈ rs, ¬r₁.Releases r'.ev.endpointId) ∧ ¬r.Releases r'.ev.endpointId := by
      simp only [List.forall_mem_append, List.forall_mem_singleton, and_assoc]
    rw [List.cons_append, unreleased, unreleased, ih]
    simp only [hr]
    split_ifs <;> simp_all

-- What the handle has tracked after some records.
def udpAfter (rs : List EventRecord) : Option (List DivertEvent) :=
  rs.foldl (fun udp r => (eventCallback .flow true r udp).2) none

theorem udpAfter_concat : udpAfter (rs ++ [r]) = (eventCallback .flow true r (udpAfter rs)).2 := by
  simp [udpAfter]

-- A release deletes the flows of its endpoint and leaves the others.
theorem eventCallback_release (udp : Option (List DivertEvent)) (hs : divertEventSize ≤ r.size)
    (hf : Flags.has r.ev.flags evfUdpRelease) :
    (eventCallback .flow true r udp).1.Perm
      (((udp.getD []).filter (·.endpointId = r.ev.endpointId)).map (deletion r.ev)) ∧
    ((eventCallback .flow true r udp).2.getD []).Perm
      ((udp.getD []).filter (·.endpointId ≠ r.ev.endpointId)) := by
  rw [eventCallback, if_neg (by omega), if_pos hf]
  cases udp
  case none => simp [udpRelease]
  case some udp =>
    have ⟨hg, hk⟩ := Sweep.sweepAll_perm (p := (·.endpointId = r.ev.endpointId)) (l := udp)
    exact ⟨hg.map _, by simpa [udpRelease] using hk⟩

-- One record, as long as there is room.
theorem eventCallback_udp (hc : r.Establishes → (udp.getD []).length < udpTrackMax) :
    ((eventCallback .flow true r udp).2.getD []).Perm
      ((udp.getD []).filter (¬r.Releases ·.endpointId) ++ if r.Establishes then [r.ev] else []) := by
  by_cases hs : r.size < divertEventSize
  case pos =>
    have hs' : ¬divertEventSize ≤ r.size := by omega
    simp [eventCallback, hs, EventRecord.Releases, EventRecord.Establishes, hs']
  case neg =>
    have hs' : divertEventSize ≤ r.size := by omega
    by_cases hf : Flags.has r.ev.flags evfUdpRelease
    case pos =>
      have h := (eventCallback_release udp hs' hf).right
      simpa [EventRecord.Releases, EventRecord.Establishes, hs', hf, eq_comm] using h
    case neg =>
      have hr {id} : ¬r.Releases id := fun h => hf h.right.left
      by_cases he : r.Establishes
      case pos =>
        have ht := he.right.right
        have hc := hc he
        have hu : (udpTrack true r.ev udp).getD [] = udp.getD [] ++ [r.ev] := by
          cases udp <;> simp_all [udpTrack, udpForget, Nat.ne_of_lt]
        simp [eventCallback, hs, hf, ht, hr, he, hu]
      case neg =>
        have ht : ¬(r.ev.protocol = Wd.ipprotoUdp ∧ r.ev.event = eventFlowEstablished) :=
          fun h => he ⟨hs', hf, h⟩
        simp [eventCallback, hs, hf, ht, hr, he]

-- Below capacity the handle tracks exactly the flows that have not been released.
theorem udpAfter_perm (hc : ∀ rs', rs' <+: rs → (unreleased rs').length ≤ udpTrackMax) :
    ((udpAfter rs).getD []).Perm (unreleased rs) := by
  induction rs using List.reverseRecOn
  case nil => exact .nil
  case append_singleton rs r ih =>
    have ih := ih fun rs' h => hc rs' <| h.trans <| List.prefix_append _ _
    have hl := hc _ List.prefix_rfl
    rw [unreleased_concat] at hl ⊢
    rw [udpAfter_concat]
    refine (eventCallback_udp fun he => ?_).trans <| (ih.filter _).append_right _
    have hf : (unreleased rs).filter (¬r.Releases ·.endpointId) = unreleased rs := by
      simp [he.not_releases]
    rw [hf, if_pos he, List.length_append] at hl
    rw [ih.length_eq]
    exact hl

theorem udp_flows_exact (rs : List EventRecord)
    (hc : ∀ rs', rs' <+: rs → (unreleased rs').length ≤ udpTrackMax) :
    (∀ rs', rs' <+: rs → ((udpAfter rs').getD []).Perm (unreleased rs')) ∧
    ∀ rs' r, rs' ++ [r] <+: rs → r.Releases r.ev.endpointId →
      (eventCallback .flow true r (udpAfter rs')).1.Perm
        (((unreleased rs').filter (·.endpointId = r.ev.endpointId)).map fun f =>
          ⟨{ f with timestamp := r.ev.timestamp }, eventFlowDeleted⟩) ∧
      ((udpAfter (rs' ++ [r])).getD []).Perm
        ((unreleased rs').filter (·.endpointId ≠ r.ev.endpointId)) := by
  have exact {rs'} (h : rs' <+: rs) : ((udpAfter rs').getD []).Perm (unreleased rs') :=
    udpAfter_perm fun rs'' h' => hc rs'' <| h'.trans h
  refine ⟨fun _ h => exact h, fun rs' r h hr => ?_⟩
  have hp := exact <| (List.prefix_append rs' [r]).trans h
  have ⟨hg, hk⟩ := eventCallback_release (udpAfter rs') hr.left hr.right.left
  exact ⟨hg.trans <| (hp.filter _).map _, udpAfter_concat ▸ hk.trans (hp.filter _)⟩

-- A packet to or from a port of another host.
def flowRecord (id : BitVec 64) (remotePort : BitVec 16) : EventRecord where
  size := divertEventSize
  ev   :=
    { timestamp        := 1000
      endpointId       := id
      parentEndpointId := 0
      pid              := 1234
      event            := eventFlowEstablished
      protocol         := Wd.ipprotoUdp
      family           := 4
      flags            := 0
      localPort        := 5000
      remotePort       := remotePort
      localAddr        := (Words.mapped 0xC0000202).toNet16
      remoteAddr       := (Words.mapped 0xC0000201).toNet16 }

def releaseRecord (id : BitVec 64) : EventRecord where
  size := divertEventSize
  ev   := { (flowRecord id 0).ev with timestamp := 2000, flags := evfUdpRelease }

-- The first socket has two flows and is released.
theorem udp_flows_exact_two :
    ((udpAfter [flowRecord 1 53, flowRecord 2 53, flowRecord 1 123, releaseRecord 1]).getD []).Perm
      [(flowRecord 2 53).ev] ∧
    (eventCallback .flow true (releaseRecord 1)
      (udpAfter [flowRecord 1 53, flowRecord 2 53, flowRecord 1 123])).1.Perm
      [⟨{ (flowRecord 1 53).ev with timestamp := (releaseRecord 1).ev.timestamp }, eventFlowDeleted⟩,
        ⟨{ (flowRecord 1 123).ev with timestamp := (releaseRecord 1).ev.timestamp }, eventFlowDeleted⟩] :=
  have h := udp_flows_exact [flowRecord 1 53, flowRecord 2 53, flowRecord 1 123, releaseRecord 1] <| by
    simpa only [List.mem_inits] using (by decide :
      ∀ rs ∈ [flowRecord 1 53, flowRecord 2 53, flowRecord 1 123, releaseRecord 1].inits,
        (unreleased rs).length ≤ udpTrackMax)
  ⟨h.left _ List.prefix_rfl, (h.right _ _ List.prefix_rfl (by decide)).left⟩

-- A tracked flow, and when it was tracked.
structure Flow where
  ev   : DivertEvent
  time : Nat

inductive UdpCall
  | track (allocOk : Bool) (ev : DivertEvent)
  | release (ev : DivertEvent)

-- Calls, the last one first.
def udpCalls : List UdpCall → Option (List DivertEvent)
  | []                     => none
  | .track allocOk ev :: cs => udpTrack allocOk ev (udpCalls cs)
  | .release ev :: cs       => (udpRelease ev (udpCalls cs)).2

-- The same calls with notes on the flows.
def udpNotes : List UdpCall → Option (List Flow)
  | []                      => none
  | .track allocOk ev :: cs => udpTrack allocOk ⟨ev, cs.length⟩ (udpNotes cs)
  | .release ev :: cs       => (udpNotes cs).map fun udp =>
    (Sweep.sweepAll ((·.endpointId = ev.endpointId) ∘ Flow.ev) udp).2

theorem map_udpTrack {α β : Type} {f : α → β} {allocOk : Bool} {a : α} {udp : Option (List α)} :
    (udpTrack allocOk a udp).map (·.map f) = udpTrack allocOk (f a) (udp.map (·.map f)) := by
  cases udp
  case none => cases allocOk <;> rfl
  case some udp =>
    by_cases hl : udp.length = udpTrackMax <;> simp [udpTrack, udpForget, hl]

theorem map_udpNotes (cs : List UdpCall) : (udpNotes cs).map (·.map Flow.ev) = udpCalls cs := by
  induction cs
  case nil => rfl
  case cons c cs ih =>
    cases c
    case track => rw [udpNotes, map_udpTrack, ih, udpCalls]
    case release ev =>
      rw [udpNotes, udpCalls, ← ih]
      cases udpNotes cs
      case none => rfl
      case some udp =>
        have h := Sweep.sweepAll_map (f := Flow.ev) (q := (·.endpointId = ev.endpointId)) udp
        exact congrArg some (Prod.mk.inj h).right

-- The flows of the socket that is released are not in the first half of the cells, so that nothing is
-- moved there, or what is left fits into it.
def Confined (udp : List DivertEvent) (ev : DivertEvent) : Prop :=
  (∀ f ∈ udp.take (udpTrackMax / 2), f.endpointId ≠ ev.endpointId) ∨
    (udp.filter (·.endpointId ≠ ev.endpointId)).length ≤ udpTrackMax / 2

-- All releases are confined when they are called.
def Calm : List UdpCall → Prop
  | []                => True
  | .track _ _ :: cs  => Calm cs
  | .release ev :: cs => Confined ((udpCalls cs).getD []) ev ∧ Calm cs

theorem Calm.suffix {cs cs' : List UdpCall} (h : Calm cs) (hs : cs' <:+ cs) : Calm cs' := by
  induction cs
  case nil => exact List.suffix_nil.mp hs ▸ h
  case cons c cs ih =>
    rcases List.suffix_cons_iff.mp hs with rfl | hs'
    case inl => exact h
    case inr =>
      cases c
      case track   => exact ih h hs'
      case release => exact ih h.right hs'

-- The flows in the first half of the cells were tracked no later than the others.
structure Halved (n : Nat) (udp : List Flow) : Prop where
  before : ∀ f ∈ udp, f.time < n
  order  : ∀ f ∈ udp.take (udpTrackMax / 2), ∀ g ∈ udp.drop (udpTrackMax / 2), f.time ≤ g.time

namespace Halved

variable {n : Nat} {fs fs' : List Flow} {f : Flow}

theorem of_length_le (hb : ∀ f ∈ fs, f.time < n) (hl : fs.length ≤ udpTrackMax / 2) : Halved n fs where
  before := hb
  order  := by simp [List.drop_of_length_le hl]

theorem mono (h : Halved n fs) : Halved (n + 1) fs :=
  ⟨fun f hf => (h.before f hf).trans n.lt_succ_self, h.order⟩

theorem concat (h : Halved n fs) (hf : f.time = n) : Halved (n + 1) (fs ++ [f]) where
  before g hg := by
    rcases List.mem_append.mp hg with hg | hg
    case inl => exact (h.before g hg).trans n.lt_succ_self
    case inr => simp_all
  order f' hf' g hg := by
    by_cases hl : udpTrackMax / 2 ≤ fs.length
    case neg =>
      rw [List.drop_of_length_le (by simp; omega)] at hg
      cases hg
    case pos =>
      rw [List.take_append_of_le_length hl] at hf'
      rw [List.drop_append_of_le_length hl] at hg
      rcases List.mem_append.mp hg with hg | hg
      case inl => exact h.order f' hf' g hg
      case inr =>
        rw [List.mem_singleton.mp hg, hf]
        exact (h.before f' (List.mem_of_mem_take hf')).le

theorem forget (h : Halved n fs) : Halved n (udpForget fs).2 := by
  rw [udpForget]
  split_ifs with hl
  case pos =>
    refine of_length_le (fun f hf => h.before f (List.mem_of_mem_drop hf)) ?_
    rw [List.length_drop, hl]
    decide
  case neg => exact h

theorem release {ev : DivertEvent} (h : Halved n fs) (hc : Confined (fs.map Flow.ev) ev) :
    Halved n (Sweep.sweepAll ((·.endpointId = ev.endpointId) ∘ Flow.ev) fs).2 := by
  have hp := (Sweep.sweepAll_perm (p := (·.endpointId = ev.endpointId) ∘ Flow.ev) (l := fs)).right
  have hb : ∀ f ∈ (Sweep.sweepAll ((·.endpointId = ev.endpointId) ∘ Flow.ev) fs).2, f.time < n :=
    fun f hf => h.before f (List.mem_of_mem_filter (hp.mem_iff.mp hf))
  rcases hc with hc | hc
  case inr =>
    refine of_length_le hb (hp.length_eq.le.trans (Nat.le_trans (Nat.le_of_eq ?_) hc))
    rw [List.filter_map, List.length_map]
    exact congrArg List.length (List.filter_congr fun f _ => by simp)
  case inl =>
    by_cases hl : udpTrackMax / 2 ≤ fs.length
    case neg =>
      refine of_length_le hb (hp.length_eq.le.trans ?_)
      exact (List.length_filter_le ..).trans (Nat.le_of_not_le hl)
    case pos =>
      have hc' : ∀ f ∈ fs.take (udpTrackMax / 2), ¬decide (f.ev.endpointId = ev.endpointId) := by
        intro f hf
        simpa using hc f.ev (by rw [← List.map_take]; exact List.mem_map_of_mem hf)
      obtain ⟨rest, hr, hk⟩ := Sweep.sweepAll_append_of_not (p := (·.endpointId = ev.endpointId) ∘ Flow.ev)
        (fs.drop (udpTrackMax / 2)) hc'
      rw [List.take_append_drop] at hr
      have ht : (fs.take (udpTrackMax / 2)).length = udpTrackMax / 2 := by simpa using hl
      refine ⟨hb, ?_⟩
      rw [hr, List.take_left' ht, List.drop_left' ht]
      exact fun f hf g hg => h.order f hf g (List.mem_of_mem_filter (hk.mem_iff.mp hg))

end Halved

theorem halved_udpNotes {cs : List UdpCall} (hc : Calm cs) :
    Halved cs.length ((udpNotes cs).getD []) := by
  induction cs
  case nil => exact .of_length_le (by simp [udpNotes]) (by simp [udpNotes])
  case cons c cs ih =>
    cases c
    case track allocOk ev =>
      have ih := ih hc
      rw [udpNotes]
      cases hu : udpNotes cs
      case none =>
        have hn : Halved cs.length [] := .of_length_le (by simp) (by simp)
        cases allocOk
        case false => exact hn.mono
        case true  => exact hn.concat (f := ⟨ev, cs.length⟩) rfl
      case some fs =>
        rw [hu] at ih
        exact ih.forget.concat rfl
    case release ev =>
      have ih := ih hc.right
      have hconf := hc.left
      rw [← map_udpNotes] at hconf
      rw [udpNotes]
      cases hu : udpNotes cs
      case none   => exact .of_length_le (by simp) (by simp)
      case some fs =>
        rw [hu] at ih hconf
        exact (ih.release hconf).mono

-- Only the oldest flows are forgotten as long as no release moves a flow into their half.
theorem forgets_oldest (cs : List UdpCall) (hc : Calm cs) : ∀ cs', cs' <:+ cs →
    udpCalls cs' = (udpNotes cs').map (·.map Flow.ev) ∧
    ∀ f ∈ (udpForget ((udpNotes cs').getD [])).1, ∀ g ∈ (udpForget ((udpNotes cs').getD [])).2,
      f.time ≤ g.time := by
  intro cs' hs
  have h := halved_udpNotes (hc.suffix hs)
  refine ⟨(map_udpNotes cs').symm, ?_⟩
  rw [udpForget]
  split_ifs
  case pos => exact h.order
  case neg => simp

-- One flow for each of the first `n` sockets.
def trackAll : Nat → List UdpCall
  | 0     => []
  | n + 1 => .track true (flowRecord (.ofNat 64 n) 53).ev :: trackAll n

def flowOf (n : Nat) : Flow :=
  ⟨(flowRecord (.ofNat 64 n) 53).ev, n⟩

@[simp]
theorem length_trackAll {n : Nat} : (trackAll n).length = n := by
  induction n
  case zero => rfl
  case succ => simpa [trackAll]

theorem udpTrack_some {α : Type} {allocOk : Bool} {a : α} {udp : List α}
    (h : udp.length < udpTrackMax) : udpTrack allocOk a (some udp) = some (udp ++ [a]) := by
  rw [udpTrack, udpForget, if_neg h.ne]

theorem udpNotes_trackAll {n : Nat} (hn : n < udpTrackMax) :
    udpNotes (trackAll (n + 1)) = some ((List.range (n + 1)).map flowOf) := by
  induction n
  case zero => rfl
  case succ n ih =>
    rw [trackAll, udpNotes, ih (by omega), udpTrack_some (by simpa using hn), length_trackAll,
      List.range_succ (n := n + 1), List.map_append]
    rfl

theorem ofNat_ne {i n : Nat} (hi : i < n) (hn : n < udpTrackMax) :
    BitVec.ofNat 64 i ≠ BitVec.ofNat 64 n := by
  rw [udpTrackMax] at hn
  rw [ne_eq, ← BitVec.toNat_inj, BitVec.toNat_ofNat, BitVec.toNat_ofNat]
  omega

-- The last flow takes the place of the first one.
theorem udpNotes_release {n : Nat} (hn : n + 1 < udpTrackMax) :
    udpNotes (.release (flowRecord 0 53).ev :: trackAll (n + 2)) =
      some (flowOf (n + 1) :: (List.range n).map fun i => flowOf (i + 1)) := by
  have hr : (List.range (n + 2)).map flowOf =
      flowOf 0 :: ((List.range n).map (fun i => flowOf (i + 1)) ++ [flowOf (n + 1)]) := by
    rw [List.range_succ_eq_map, List.range_succ]
    simp [Function.comp_def]
  have hne {i} (hi : i < n + 1) : decide (BitVec.ofNat 64 (i + 1) = 0#64) = false :=
    decide_eq_false (ofNat_ne i.succ_pos (by omega)).symm
  rw [udpNotes, udpNotes_trackAll hn, Option.map_some, hr, Sweep.sweepAll_cons, Sweep.front_concat]
  case ha => simp [flowOf, flowRecord]
  case h =>
    simp only [Sweep.front_concat, List.forall_mem_cons, List.forall_mem_map, List.mem_range]
    exact ⟨ne_true_of_eq_false <| hne n.lt_succ_self,
      fun i hi => ne_true_of_eq_false <| hne (Nat.lt_succ_of_lt hi)⟩

theorem udpNotes_track {cs : List UdpCall} {udp : List Flow} (ev : DivertEvent)
    (h : udpNotes cs = some udp) (hl : udp.length < udpTrackMax) :
    udpNotes (.track true ev :: cs) = some (udp ++ [⟨ev, cs.length⟩]) := by
  rw [udpNotes, h, udpTrack_some hl]

-- As many flows as fit are tracked, the last one is released and another one follows.
def lastReleased (n : Nat) : List UdpCall :=
  .track true (flowRecord 0 123).ev :: .release (flowRecord (.ofNat 64 n) 53).ev :: trackAll (n + 1)

theorem udpNotes_lastReleased {n : Nat} (hn : n < udpTrackMax) :
    udpNotes (lastReleased n) = some ((List.range n).map flowOf ++ [⟨(flowRecord 0 123).ev, n + 2⟩]) := by
  have hr : udpNotes (.release (flowRecord (.ofNat 64 n) 53).ev :: trackAll (n + 1)) =
      some ((List.range n).map flowOf) := by
    have hne : ∀ f ∈ (List.range n).map flowOf, ¬decide (f.ev.endpointId = BitVec.ofNat 64 n) := by
      simpa [flowOf, flowRecord] using fun i hi => ofNat_ne hi hn
    obtain ⟨rest, hs, hp⟩ := Sweep.sweepAll_append_of_not
      (p := (·.endpointId = BitVec.ofNat 64 n) ∘ Flow.ev) [flowOf n] hne
    have hnil : rest = [] := by simpa [flowOf, flowRecord] using hp
    rw [udpNotes, udpNotes_trackAll hn, Option.map_some, List.range_succ, List.map_append,
      List.map_singleton]
    exact congrArg some (hs.trans (by rw [hnil, List.append_nil]))
  rw [lastReleased, udpNotes_track _ hr (by simpa using hn)]
  simp

theorem calm_trackAll {n : Nat} : Calm (trackAll n) := by
  induction n
  case zero => trivial
  case succ n ih => exact ih

theorem calm_lastReleased {n : Nat} (hn : n < udpTrackMax) (hh : udpTrackMax / 2 ≤ n) :
    Calm (lastReleased n) := by
  refine ⟨.inl ?_, calm_trackAll⟩
  rw [← map_udpNotes, udpNotes_trackAll hn, Option.map_some, Option.getD_some, List.map_map, ← List.map_take,
    List.take_range, Nat.min_eq_left (by omega)]
  simpa [flowOf, flowRecord] using fun i hi => ofNat_ne (Nat.lt_of_lt_of_le hi hh) hn

-- The array is full again after the release.
theorem forgets_oldest_last : ∃ cs, Calm cs ∧ ((udpNotes cs).getD []).length = udpTrackMax ∧
    ∀ f ∈ (udpForget ((udpNotes cs).getD [])).1, ∀ g ∈ (udpForget ((udpNotes cs).getD [])).2,
      f.time ≤ g.time := by
  obtain ⟨n, hn⟩ : ∃ n, n + 1 = udpTrackMax := ⟨65535, rfl⟩
  have hc : Calm (lastReleased n) := calm_lastReleased (by omega) (by omega)
  refine ⟨lastReleased n, hc, ?_, (forgets_oldest (lastReleased n) hc _ List.suffix_rfl).right⟩
  rw [udpNotes_lastReleased (by omega)]
  simpa using hn

-- All but one of the flows that fit are tracked, the first socket is released and two others follow.
-- The flow that was tracked last before the release is forgotten, unlike older ones.
theorem forgets_younger_of_half {n : Nat} (hn : udpTrackMax = 2 * (n + 2)) (h0 : 0 < n) :
    ∃ cs udp, udpNotes cs = some udp ∧ udp.length = udpTrackMax ∧
      ∃ f ∈ (udpForget udp).1, ∃ g ∈ (udpForget udp).2, g.time < f.time := by
  have hr := udpNotes_release (n := n + 1 + n) (by omega)
  have h₁ := udpNotes_track (flowRecord 1 53).ev hr (by simp; omega)
  have h₂ := udpNotes_track (flowRecord 2 53).ev h₁ (by simp; omega)
  refine ⟨_, _, h₂, by simp; omega, ?_⟩
  have hs : (List.range (n + 1 + n)).map (fun i => flowOf (i + 1)) =
      (List.range (n + 1)).map (fun i => flowOf (i + 1)) ++
        (List.range n).map fun i => flowOf (n + 1 + i + 1) := by
    rw [List.range_add, List.map_append, List.map_map]
    rfl
  rw [hs, udpForget, if_pos (by simp; omega), ← List.cons_append, List.append_assoc, List.append_assoc,
    List.take_left' (by simp; omega), List.drop_left' (by simp; omega)]
  refine ⟨_, List.mem_cons_self, flowOf (n + 1 + 0 + 1), ?_, ?_⟩
  case refine_1 => exact List.mem_append_left _ <| List.mem_map.mpr ⟨0, List.mem_range.mpr h0, rfl⟩
  case refine_2 =>
    simp only [flowOf]
    omega

theorem forgets_younger : ∃ cs udp, udpNotes cs = some udp ∧ udp.length = udpTrackMax ∧
    ∃ f ∈ (udpForget udp).1, ∃ g ∈ (udpForget udp).2, g.time < f.time :=
  forgets_younger_of_half (n := 32766) rfl (by decide)

end Handle
