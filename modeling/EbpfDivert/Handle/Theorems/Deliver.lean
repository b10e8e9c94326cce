import EbpfDivert.Handle.Theorems.Snapshots
import EbpfDivert.Handle.Theorems.Udp
import EbpfDivert.Prefilter.Theorems.Events

open Shared Prefilter Kernel

-- What a handle queues of the events that are delivered to it.
namespace Handle

variable {env : Env} {h : Handle} {q : QEntry}

section Events

variable {d : Delivery} {r : EventRecord} {rs : List EventRecord} {udp : Option (List DivertEvent)}

theorem deliverEvent_eq_some_iff : deliverEvent env h d = some q ↔ env.allocOk ∧
    Wd.filterEval h.filter env.hash []
      (eventAddress h.layer (Flags.has h.flags flagSniff) d.ev d.event) = some true ∧
    q = ⟨{ eventAddress h.layer (Flags.has h.flags flagSniff) d.ev d.event with stash := none }, []⟩ := by
  simp only [deliverEvent]
  generalize Wd.filterEval _ _ _ _ = accepted
  cases env.allocOk
  case false => simp
  case true =>
    rcases accepted with _ | _ | _
    case some.true => simp [eq_comm]
    all_goals simp

-- What is queued of a record of the ring.
def queuedEvents (env : Env) (h : Handle) (r : EventRecord) (udp : Option (List DivertEvent)) :
    List QEntry :=
  (eventCallback h.layer env.allocOk r udp).1.filterMap (deliverEvent env h)

-- The release of a socket is reported for each of its flows, as far as the filter accepts that.
theorem queuedEvents_release (hl : h.layer = .flow) (ha : env.allocOk)
    (hr : r.Releases r.ev.endpointId)
    (hc : ∀ rs', rs' <+: rs → (unreleased rs').length ≤ udpTrackMax) :
    (queuedEvents env h r (udpAfter rs)).Perm
      (((unreleased rs).filter (·.endpointId = r.ev.endpointId)).filterMap
        (deliverEvent env h ∘ deletion r.ev)) := by
  obtain ⟨hg, -⟩ := eventCallback_release (udpAfter rs) hr.left hr.right.left
  rw [queuedEvents, hl, ha, ← List.filterMap_map]
  exact (hg.trans <| ((udpAfter_perm hc).filter _).map _).filterMap _

-- A handle on the socket layer with exact rules is told of exactly the operations that they refuse.
theorem queuedEvents_socket {cfg : EventConfig} {rules : List EventRule} {max : Nat}
    (hl : h.layer = .socket) (ha : env.allocOk) (hs : divertEventSize ≤ r.size)
    (hf : ¬Flags.has r.ev.flags evfUdpRelease) (ho : Plain h.filter.object)
    (hq : ∀ insn ∈ h.filter.object, insn.field = .localAddr ∨ insn.field = .remoteAddr →
      insn.test = .eq ∨ insn.test = .neq)
    (hr : pfLowerEvents h.filter max = (rules, true)) (hn : rules.length ≤ eventRulesMax)
    (hb : Flags.has cfg.flags evcfgBlock) (he : r.ev.event.toNat < 16) :
    queuedEvents env h r udp ≠ [] ↔ shouldBlock cfg (eventTable rules) r.ev := by
  have hc : eventCallback h.layer env.allocOk r udp = ([⟨r.ev, r.ev.event⟩], udp) := by
    rw [eventCallback, if_neg (Nat.not_lt.mpr hs), if_neg hf, if_neg (by simp [hl])]
  have hd : queuedEvents env h r udp ≠ [] ↔ (deliverEvent env h ⟨r.ev, r.ev.event⟩).isSome := by
    rw [queuedEvents, hc]
    cases hd : deliverEvent env h ⟨r.ev, r.ev.event⟩ <;> simp [hd]
  have hb := shouldBlock_iff_accepted (Flags.has h.flags flagSniff) env.hash ho (h.filter_layer.trans hl)
    hq hr hn hb he
  rw [hd, Option.isSome_iff_exists, hb]
  simp only [deliverEvent_eq_some_iff, ha, h.filter_layer, true_and, exists_and_left, exists_eq, and_true]

end Events

namespace Reflect

variable {now : Int} {c : Call} {m : Malloc} {snap : Snapshot} {s : Shared}

-- The entry has the filter of the handle that it is about.
theorem deliverReflect_eq_some (hd : deliverReflect env h now c = some q) :
    env.allocOk ∧ Wd.filterEval h.filter env.hash c.filter q.addr.toAddress = some true ∧
      q.data = c.filter ∧ q.addr.reflect = c.data ∧ q.addr.event = c.event := by
  rw [deliverReflect] at hd
  split_ifs at hd with ha
  dsimp only at hd
  split at hd
  case h_2 => cases hd
  case h_1 hf =>
    cases hd
    exact ⟨by simpa using ha, hf, rfl, rfl, rfl⟩

-- What is queued of the handles that have been opened and closed since the last poll.
theorem poll_queues (env : Env) (g : Handle) (now : Int) (m : Malloc) (snap : Snapshot) (h : s.Ok)
    (hn : (s.view.map Record.id).Nodup) :
    ∃ s' calls, poll m s.nseen (snap.entries.map snap.item) s = some (s', calls) ∧
      (calls.filterMap (deliverReflect env g now)).Perm
        ((snap.opens s.view).filterMap (deliverReflect env g now ∘ Record.call eventReflectOpen) ++
          (snap.closes s.view).filterMap (deliverReflect env g now ∘ Record.call eventReflectClose)) := by
  obtain ⟨s', closed, hp, -, hc, -⟩ := poll_snapshot m snap h hn
  refine ⟨s', _, hp, ?_⟩
  rw [List.filterMap_append, List.filterMap_map, List.filterMap_map]
  exact (hc.filterMap _).append_left _

end Reflect

end Handle
