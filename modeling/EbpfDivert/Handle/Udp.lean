import EbpfDivert.Handle.Events
import EbpfDivert.Handle.Receive
import EbpfDivert.Primitives.Sweep

open Shared

-- How a handle turns the records of the event programs into events and keeps track of UDP flows.
namespace Handle

def udpTrackMax : Nat := 65536

def eventFlowEstablished : BitVec 8 := 1
def eventFlowDeleted     : BitVec 8 := 2

abbrev evfUdpRelease := Flags.bit 8 1

-- The size of an event in memory.
def divertEventSize : Nat := 72

-- A record of the ring. One that is too short holds no event.
structure EventRecord where
  size : Nat
  ev   : DivertEvent

-- A call of `deliver_event`.
structure Delivery where
  ev    : DivertEvent
  event : BitVec 8

-- The entry that is queued, if the filter accepts the event.
def deliverEvent (env : Env) (h : Handle) (d : Delivery) : Option QEntry :=
  if !env.allocOk then none
  else
    let addr := eventAddress h.layer (Flags.has h.flags flagSniff) d.ev d.event
    match Wd.filterEval h.filter env.hash [] addr with
    | some true => some ⟨{ addr with stash := none }, []⟩
    | _         => none

section

variable {α : Type}

-- The flows that are discarded and those that are kept when another one is to be tracked.
def udpForget (udp : List α) : List α × List α :=
  if udp.length = udpTrackMax then
    (udp.take (udpTrackMax / 2), udp.drop (udpTrackMax / 2))
  else ([], udp)

-- The array is allocated with the first flow.
def udpTrack (allocOk : Bool) (ev : α) : Option (List α) → Option (List α)
  | none     => if allocOk then some [ev] else none
  | some udp => some <| (udpForget udp).2 ++ [ev]

end

-- The flows of a socket are deleted at the time of its release.
def deletion (ev del : DivertEvent) : Delivery :=
  ⟨{ del with timestamp := ev.timestamp }, eventFlowDeleted⟩

def udpRelease (ev : DivertEvent) : Option (List DivertEvent) → List Delivery × Option (List DivertEvent)
  | none     => ([], none)
  | some udp =>
    let (gone, udp) := Sweep.sweepAll (·.endpointId = ev.endpointId) udp
    (gone.map (deletion ev), some udp)

def eventCallback (layer : Wd.Layer) (allocOk : Bool) (r : EventRecord)
    (udp : Option (List DivertEvent)) : List Delivery × Option (List DivertEvent) :=
  if r.size < divertEventSize then ([], udp)
  else if Flags.has r.ev.flags evfUdpRelease then udpRelease r.ev udp
  else if layer = .flow ∧ r.ev.protocol = Wd.ipprotoUdp ∧ r.ev.event = eventFlowEstablished then
    ([⟨r.ev, r.ev.event⟩], udpTrack allocOk r.ev udp)
  else ([⟨r.ev, r.ev.event⟩], udp)

end Handle
