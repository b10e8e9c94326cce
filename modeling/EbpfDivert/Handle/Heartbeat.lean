import EbpfDivert.Handle.Basic
import EbpfDivert.Kernel.Process
import EbpfDivert.Kernel.Sockets

open Shared Kernel

-- The heartbeat of a handle and the programs that look at it while it is refreshed.
namespace Handle.Heartbeat

-- The monotonic clock in nanoseconds, the reading that `write_config` has taken of it but not stored
-- yet, the timestamp that the programs see and when it was stored.
structure Sys where
  clock     : Nat
  reading   : Option Nat
  heartbeat : Nat
  storedAt  : Nat

-- Time passes, or `write_config` reads the clock or stores its reading.
inductive Act
  | tick (d : Nat)
  | read
  | store
deriving DecidableEq

-- Only one thread is in `write_config` at a time.
def step (s : Sys) : Act → Option Sys
  | .tick d => some { s with clock := s.clock + d }
  | .read   => if s.reading.isSome then none else some { s with reading := some s.clock }
  | .store  => s.reading.map fun r =>
    { s with reading := none, heartbeat := r, storedAt := s.clock }

def run : Sys → List Act → Option Sys
  | s, []      => some s
  | s, a :: as => step s a >>= (run · as)

-- The readings that are stored on the way.
def stored : Sys → List Act → List Nat
  | _, []      => []
  | s, a :: as =>
    match step s a with
    | none    => []
    | some s' => if a = .store then s'.heartbeat :: stored s' as else stored s' as

-- The programs read the clock and the timestamp one after the other, in an order that the compiler
-- chooses.
inductive Order
  | clockFirst
  | loadFirst

-- The time that a program reads, and the timestamp that it loads, if it makes its first access in one
-- state and its second in another.
def Order.time (o : Order) (s s' : Sys) : Nat :=
  match o with
  | .clockFirst => s.clock
  | .loadFirst  => s'.clock

def Order.loaded (o : Order) (s s' : Sys) : Nat :=
  match o with
  | .clockFirst => s'.heartbeat
  | .loadFirst  => s.heartbeat

-- Whether `process_packet` takes the owner for gone.
def packetCheck (o : Order) (cfg : DivertConfig) (s s' : Sys) : Bool :=
  let heartbeatNs := .ofNat 64 (o.loaded s s')
  ownerGone { cfg with heartbeatNs, heartbeatTimeoutNs } (.ofNat 64 (o.time s s'))

-- Whether `live_config` does.
def eventCheck (o : Order) (cfg : EventConfig) (s s' : Sys) : Bool :=
  let heartbeatNs := .ofNat 64 (o.loaded s s')
  (liveConfig { cfg with heartbeatNs, heartbeatTimeoutNs } (.ofNat 64 (o.time s s'))).isNone

end Handle.Heartbeat
