import EbpfDivert.Handle.Inject
import EbpfDivert.Kernel.Process
import Mathlib.Logic.Relation

open Shared Kernel

-- The host on which several handles live: how a packet travels from hook to hook, into a handle and
-- back into the network stack.
namespace Host

-- A handle with its rules and the interfaces that its programs are attached to.
structure Port where
  handle  : Handle
  tables  : Tables
  devices : BitVec 32 → Bool

-- The network handles of a host in ascending order of their TC priorities. All of them are attached
-- to `lo`, which injected packets are redirected through.
structure Setup where
  lo      : BitVec 32
  ports   : List Port
  sorted  : ports.Pairwise (·.handle.tcPrio < ·.handle.tcPrio)
  layer   : ∀ p ∈ ports, p.handle.layer = .network
  same_lo : ∀ p ∈ ports, p.handle.loIfindex = lo
  on_lo   : ∀ p ∈ ports, p.devices lo
  fresh   : ∀ p ∈ ports, p.handle.socks = []

def Setup.attached (host : Setup) (ifindex : BitVec 32) : List Port :=
  host.ports.filter (·.devices ifindex)

def hook (direction : Dir) (env : Env) (cfg : DivertConfig) (t : Tables) (skb : Skb) :
    Verdict × Skb :=
  match direction with
  | .inbound  => tcDivertIngress env cfg t skb
  | .outbound => tcDivertEgress env cfg t skb

-- How a packet leaves a hook.
inductive Exit
  | passed (skb : Skb)
  | gone
  | redirected (ifindex : BitVec 32) (skb : Skb)

-- The programs at a hook run one after the other until one does not return `TC_ACT_UNSPEC`. The list
-- holds the records that they have submitted.
inductive RunHook (direction : Dir) : List Port → Skb → List (Port × PacketBuffer) → Exit → Prop
  | nil {skb : Skb} : RunHook direction [] skb [] (.passed skb)
  | next {p ps skb skb' out recs exit env c}
    (hk : hook direction env (p.handle.config c) p.tables skb = (.done out, skb'))
    (ha : out.act = .unspec) (hr : RunHook direction ps skb' recs exit) :
    RunHook direction (p :: ps) skb (out.record.toList.map (p, ·) ++ recs) exit
  | stop {p ps skb skb' out env c}
    (hk : hook direction env (p.handle.config c) p.tables skb = (.done out, skb'))
    (ha : out.act ≠ .unspec) :
    RunHook direction (p :: ps) skb (out.record.toList.map (p, ·)) .gone
  | redirect {p ps skb skb' ifindex env c}
    (hk : hook direction env (p.handle.config c) p.tables skb = (.redirect ifindex, skb')) :
    RunHook direction (p :: ps) skb [] (.redirected ifindex skb')

-- A handle after it has sent some packets.
inductive Sender (h : Handle) : Handle → Prop
  | refl : Sender h h
  | inject {h' env pkt addr fixChecksums} :
    Sender h h' → Sender h (Handle.inject env h' pkt addr fixChecksums).2

-- The packet that the kernel makes of what it has been handed. It has not come in through any
-- interface.
inductive Emits : Handle.Sent → Skb → Prop
  | frame {f : Handle.Frame} {skb : Skb} (hi : skb.ifindex = f.ifindex) (hm : skb.mark = f.mark)
    (hp : skb.priority = f.priority) (h₀ : skb.ingressIfindex = 0) : Emits (.frame f) skb
  | raw {mark : BitVec 32} {pkt : Bytes} {skb : Skb} (hm : skb.mark = mark)
    (h₀ : skb.ingressIfindex = 0) : Emits (.raw mark pkt) skb

-- Before a hook, behind it or in the hands of a handle that has captured it.
inductive Place
  | before (direction : Dir) (skb : Skb)
  | behind (direction : Dir) (skb : Skb)
  | held (p : Port) (record : PacketBuffer)

-- A packet and the handles that have captured it or one of its ancestors, the last one first.
structure Packet where
  place : Place
  chain : List Port

inductive Step (host : Setup) : Packet → Packet → Prop
  | capture {direction skb recs exit p record chain}
    (hr : RunHook direction (host.attached skb.ifindex) skb recs exit) (hm : (p, record) ∈ recs) :
    Step host ⟨.before direction skb, chain⟩ ⟨.held p record, p :: chain⟩
  | pass {direction skb skb' recs chain}
    (hr : RunHook direction (host.attached skb.ifindex) skb recs (.passed skb')) :
    Step host ⟨.before direction skb, chain⟩ ⟨.behind direction skb', chain⟩
  | redirect {direction skb skb' skb'' ifindex recs chain}
    (hr : RunHook direction (host.attached skb.ifindex) skb recs (.redirected ifindex skb'))
    (hi : skb''.ifindex = ifindex) (hm : skb''.mark = skb'.mark) :
    Step host ⟨.before direction skb, chain⟩ ⟨.before .inbound skb'', chain⟩
  -- What leaves `lo` comes in again.
  | loop {skb skb' chain} (hl : skb.ifindex = host.lo) (hi : skb'.ifindex = host.lo)
    (hm : skb'.mark = skb.mark) (hp : skb'.priority = skb.priority) :
    Step host ⟨.behind .outbound skb, chain⟩ ⟨.before .inbound skb', chain⟩
  -- To the device below a virtual one, or to its peer.
  | lower {skb skb' chain} (hl : skb.ifindex ≠ host.lo) (hl' : skb'.ifindex ≠ host.lo)
    (hm : skb'.mark = skb.mark) (h₀ : skb'.ingressIfindex = skb.ingressIfindex) :
    Step host ⟨.behind .outbound skb, chain⟩ ⟨.before .outbound skb', chain⟩
  | peer {skb skb' chain} (hl : skb.ifindex ≠ host.lo) (hm : skb'.mark = skb.mark) :
    Step host ⟨.behind .outbound skb, chain⟩ ⟨.before .inbound skb', chain⟩
  -- To the device above, as with bridges.
  | upper {skb skb' chain} (hm : skb'.mark = skb.mark) :
    Step host ⟨.behind .inbound skb, chain⟩ ⟨.before .inbound skb', chain⟩
  | forward {skb skb' chain} (hl' : skb'.ifindex ≠ host.lo) (hm : skb'.mark = skb.mark)
    (h₀ : skb'.ingressIfindex ≠ 0) :
    Step host ⟨.behind .inbound skb, chain⟩ ⟨.before .outbound skb', chain⟩
  -- Whatever the application has made of the packet and its address.
  | inject {p record chain h env pkt addr fixChecksums sent skb} (hs : Sender p.handle h)
    (ho : (Handle.inject env h pkt addr fixChecksums).1 = .ok sent) (he : Emits sent skb) :
    Step host ⟨.held p record, chain⟩ ⟨.before .outbound skb, chain⟩

-- A packet that no handle has seen yet.
def Packet.Original (pkt : Packet) : Prop :=
  pkt.chain = [] ∧ ∃ direction skb, pkt.place = .before direction skb

abbrev Run (host : Setup) : Packet → Packet → Prop :=
  Relation.ReflTransGen (Step host)

end Host
