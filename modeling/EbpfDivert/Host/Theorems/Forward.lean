import EbpfDivert.Host.Theorems.Chain

open Shared Kernel

namespace Host

variable {h : Handle} {p q : Port} {skb skb' : Skb} {direction : Dir}
variable {env : Env} {c : Handle.ConfigEnv}

-- The forward layer only has packets that have come in through an interface.
theorem gate_forward (hq : h.layer = .networkForward) (h₀ : skb.ingressIfindex = 0) :
    gate env (h.config c) skb direction = none := by
  by_contra hg
  obtain ⟨res, hg⟩ := Option.ne_none_iff_exists'.mp hg
  obtain ⟨_, place, _, _, hp, _⟩ := gate_eq_some hg
  have hf : Flags.has (h.config c).flags cfgForward := by simp [has_config_forward, hq]
  have hp := checkPlace_eq_some hp
  cases direction
  case inbound  => simpa [hf] using (hp.inbound rfl).right
  case outbound => simpa [forwarded, h₀, hf] using hp.outbound rfl

-- A packet that has been captured, received, and sent again as it is.
inductive Reinjected (p : Port) (skb skb' : Skb) : Prop
  | intro {env c direction record fx h e fx' fixChecksums sent}
    (hc : (processPacket env (p.handle.config c) p.tables skb direction).record = some record)
    (hr : (Handle.ringCallback fx p.handle record).1 = .queued e) (hs : Sender p.handle h)
    (hi : (Handle.inject fx' h e.data e.addr fixChecksums).1 = .ok sent) (he : Emits sent skb')

-- No handle on the forward layer sees what another handle has sent again.
theorem reinjected_unseen (hr : Reinjected p skb skb') (hq : q.handle.layer = .networkForward) :
    (processPacket env (q.handle.config c) q.tables skb' direction).act = .unspec ∧
    (processPacket env (q.handle.config c) q.tables skb' direction).record = none := by
  have ⟨_, _, _, _, he⟩ := hr
  refine processPacket_of_gate_none <| gate_forward hq ?_
  cases he
  case frame h₀ => exact h₀
  case raw h₀   => exact h₀

-- Handles that capture connection requests.
def synFilter (layer : Wd.Layer) (hv : Handle.validFlags layer 0) (prio : BitVec 32)
    (hp : prio ≤ 0xFFFF) : Handle where
  layer        := layer
  flags        := 0
  flags_valid  := hv
  tcPrio       := prio
  prio_le      := hp
  filter       := ⟨layer, Handle.synObject⟩
  filter_layer := rfl
  exact        := false
  loIfindex    := 1
  socks        := []

def loaded (h : Handle) (hl : h.loadRules.isSome) : Port where
  handle  := (h.loadRules.get hl).2
  tables  := (h.loadRules.get hl).1
  devices := fun _ => true

theorem noFlags_valid : Handle.validFlags .networkForward 0 := by decide

theorem firstPrio_le : (30001 : BitVec 32) ≤ 0xFFFF := by decide

theorem secondPrio_le : (30002 : BitVec 32) ≤ 0xFFFF := by decide

theorem thirdPrio_le : (30003 : BitVec 32) ≤ 0xFFFF := by decide

def firstForward : Port :=
  loaded (synFilter .networkForward noFlags_valid 30001 firstPrio_le) rfl

def secondForward : Port :=
  loaded (synFilter .networkForward noFlags_valid 30002 secondPrio_le) rfl

def networkPort : Port :=
  loaded (synFilter .network Handle.noFlags_valid 30003 thirdPrio_le) rfl

-- A forwarded connection request, what the first handle makes of it, and what becomes of that.
def forwardedSkb : Skb :=
  { Handle.synSkb with ingressIfindex := 3 }

def forwardRecord : PacketBuffer :=
  (sight firstForward forwardedSkb).record.get rfl

def forwardEntry : Handle.QEntry :=
  ⟨Handle.recordAddress Handle.calmEnv firstForward.handle forwardRecord.header Handle.synFrame,
    Handle.synFrame.drop 14⟩

def reinjectedSkb : Skb :=
  { Handle.synSkb with mark := firstForward.handle.prevent }

theorem reinjected_forwarded : Reinjected firstForward forwardedSkb reinjectedSkb := by
  have hc : (sight firstForward forwardedSkb).record = some forwardRecord := rfl
  have hr : (Handle.ringCallback Handle.calmEnv firstForward.handle forwardRecord).1 =
      .queued forwardEntry := rfl
  have hi : (Handle.inject Handle.calmEnv firstForward.handle forwardEntry.data forwardEntry.addr
      true).1 = .ok _ := rfl
  exact .intro hc hr .refl hi (.frame rfl rfl rfl rfl)

theorem reinjected_unseen_second : (sight secondForward reinjectedSkb).record = none :=
  (reinjected_unseen reinjected_forwarded rfl).right

-- The second handle would have captured the packet but does not get to see it, and a handle on the
-- network layer does.
theorem reinjected_lost : Reinjected firstForward forwardedSkb reinjectedSkb ∧
    (sight secondForward forwardedSkb).record.isSome ∧
    (sight secondForward reinjectedSkb).record = none ∧
    (sight networkPort reinjectedSkb).record.isSome :=
  ⟨reinjected_forwarded, rfl, rfl, rfl⟩

end Host
