import EbpfDivert.Handle.Recv
import EbpfDivert.Primitives.Threads

-- Threads that receive on one handle after it has been shut down.
namespace Handle.Drain

-- The queue, under `qlock`, and the ring, under `poll_lock`. Of a record of the ring only the entry
-- matters that the callback makes of it, if it does not discard or inject the packet.
structure Shared where
  queue : Queue
  ring  : List (Option Entry)

-- Where a thread is: in no call, before it looks into the queue, between that and the ring, about to
-- return `-ESHUTDOWN`, and in `ebpfdivert_recv_ex` after the first packet. A thread that has found the
-- queue empty before the shutdown is about to look into the ring, and into the queue once more.
inductive Pc
  | idle
  | looking
  | missed
  | gaveUp
  | more
  | moreLooking
  | waiting
  | peeking
deriving DecidableEq

-- Regions under a mutex with the number of entries that they take off the queue or put there.
inductive Event
  | start
  | take (left : Nat)
  | miss (left : Nat)
  | refill (arrived : Nat)
  | giveUp
  | returned
  | moreRefill (arrived : Nat)
  | moreTake (left : Nat)
  | stop (left : Nat)
  | wait
  | peek

def Event.left : Event → Nat
  | .take n | .miss n | .moreTake n | .stop n => n
  | _                                         => 0

def Event.arrived : Event → Nat
  | .refill n | .moreRefill n => n
  | _                         => 0

def Shared.consume (fdOk : Bool) (s : Shared) : Option Shared := do
  let queue ← consumeRing fdOk (s.ring.filterMap id) s.queue
  some ⟨queue, []⟩

-- How many entries there are more in the first queue.
def surplus (q q' : Queue) : Nat :=
  q.qlen.toNat - q'.qlen.toNat

-- A call returns with an entry, or goes on to the next one.
inductive Run : Threads.Program Shared Pc Event
  | start {s} : Run .start s .idle s .looking
  | take {s l e q} (fdOk : Bool) (now : Int) (hp : s.queue.pop fdOk now = some (some e, q))
    (hl : l = .idle ∨ l = .more) : Run (.take (surplus s.queue q)) s .looking { s with queue := q } l
  | miss {s q} (fdOk : Bool) (now : Int) (hp : s.queue.pop fdOk now = some (none, q))
    (hs : q.shutRecv) : Run (.miss (surplus s.queue q)) s .looking { s with queue := q } .missed
  | refill {s s'} (fdOk : Bool) (hr : s.ring ≠ []) (hc : s.consume fdOk = some s') :
    Run (.refill (surplus s'.queue s.queue)) s .missed s' .looking
  | giveUp {s} (hr : s.ring = []) : Run .giveUp s .missed s .gaveUp
  | returned {s} : Run .returned s .gaveUp s .idle
  | moreRefill {s s'} (fdOk : Bool) (hc : s.consume fdOk = some s') :
    Run (.moreRefill (surplus s'.queue s.queue)) s .more s' .moreLooking
  | moreTake {s l e q} (fdOk : Bool) (now : Int) (hp : s.queue.pop fdOk now = some (some e, q))
    (hl : l = .idle ∨ l = .more) :
    Run (.moreTake (surplus s.queue q)) s .moreLooking { s with queue := q } l
  | expired {s q} (fdOk : Bool) (now : Int) (hp : s.queue.pop fdOk now = some (none, q)) :
    Run (.stop (surplus s.queue q)) s .moreLooking { s with queue := q } .idle
  -- There is no entry or it does not fit.
  | full {s} : Run (.stop 0) s .moreLooking s .idle
  | late {s s'} (fdOk : Bool) (hr : s.ring ≠ []) (hc : s.consume fdOk = some s') :
    Run (.refill (surplus s'.queue s.queue)) s .waiting s' .looking
  | wait {s} (hr : s.ring = []) : Run .wait s .waiting s .peeking
  -- The call returns `-EAGAIN`, or looks again at once or when it is woken.
  | peek {s l} (hl : l = .looking ∨ s.queue.qhead = none ∧ l = .idle) : Run .peek s .peeking s l

end Handle.Drain
