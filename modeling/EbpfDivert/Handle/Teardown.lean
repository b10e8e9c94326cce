import EbpfDivert.Handle.Close
import EbpfDivert.Handle.Shutdown

-- `ebpfdivert_shutdown` next to the whole of `ebpfdivert_close`, which calls it too.
namespace Handle.Teardown

open Shutdown (How At Call)

-- Apart from what `rlock` protects and the configuration: whether there is a `cfg_fd`, whether the
-- heartbeat knows the handle, the number of filters and the entry in the registry.
structure Shared where
  guard      : Close.Guard
  conf       : Shutdown.Shared
  hasConfig  : Bool
  beating    : Bool
  natt       : Nat
  regId      : BitVec 64
  registered : Bool

-- Where a thread is: in no call, in the body of a guarded call, in `ebpfdivert_shutdown`, or in
-- `ebpfdivert_close`: in the shutdown that it starts with, before it takes the handle from the
-- heartbeat, waits, detaches, deletes the entry in the registry and frees the handle.
inductive Pc
  | idle
  | body
  | shutdown (how : How) (l : At)
  | closing (l : At)
  | silencing
  | waiting
  | asleep
  | detaching
  | unregistering
  | freeing
deriving DecidableEq

inductive Event
  | enter
  | enterRefused
  | work
  | leave
  | call
  | step
  | returned
  | beat
  | close
  | closeRefused
  | shut
  | shutDone
  | silence
  | sleep
  | wake
  | drain
  | detach
  | unregister
  | free
deriving DecidableEq

-- Regions under a mutex. What a guarded call does under `qlock` is not specified, and a shutdown is
-- not guarded. The heartbeat writes the configurations of the handles it knows.
inductive Run : Threads.Program Shared Pc Event
  | enter {s guard} (hf : s.guard.freed = false) (he : Close.handleEnter s.guard = some guard) :
    Run .enter s .idle { s with guard } .body
  | enterRefused {s} (hf : s.guard.freed = false) (he : Close.handleEnter s.guard = none) :
    Run .enterRefused s .idle s .idle
  | work {s} (queue : Queue) (hq : s.conf.qlock = false) :
    Run .work s .body { s with conf := { s.conf with queue } } .body
  | leave {s} : Run .leave s .body { s with guard := Close.handleLeave s.guard } .idle
  | call {s} (how : How) (hf : s.guard.freed = false) :
    Run .call s .idle s (.shutdown how how.first)
  | step {s how l conf l'} (hs : Call how s.hasConfig s.conf l conf (some l')) :
    Run .step s (.shutdown how l) { s with conf } (.shutdown how l')
  | returned {s how l conf} (hs : Call how s.hasConfig s.conf l conf none) :
    Run .returned s (.shutdown how l) { s with conf } .idle
  | beat {s} (now : BitVec 64) (hb : s.beating) : Run .beat s .idle
    { s with conf := if s.hasConfig then Shutdown.writeConfig now s.conf else s.conf } .idle
  | close {s guard} (hf : s.guard.freed = false) (hc : Close.startClosing s.guard = some guard) :
    Run .close s .idle { s with guard } (.closing How.both.first)
  | closeRefused {s} (hf : s.guard.freed = false) (hc : Close.startClosing s.guard = none) :
    Run .closeRefused s .idle s .idle
  | shut {s l conf l'} (hs : Call .both s.hasConfig s.conf l conf (some l')) :
    Run .shut s (.closing l) { s with conf } (.closing l')
  | shutDone {s l conf} (hs : Call .both s.hasConfig s.conf l conf none) :
    Run .shutDone s (.closing l) { s with conf } .silencing
  | silence {s} : Run .silence s .silencing { s with beating := false } .waiting
  | sleep {s} (hi : 0 < s.guard.inflight) :
    Run .sleep s .waiting { s with guard := { s.guard with woken := false } } .asleep
  | wake {s} : Run .wake s .asleep s .waiting
  | drain {s} (hi : ¬0 < s.guard.inflight) : Run .drain s .waiting s .detaching
  | detach {s} : Run .detach s .detaching { s with natt := 0 }
    (if s.regId = 0 then .freeing else .unregistering)
  | unregister {s} (fdOk : Bool) : Run .unregister s .unregistering
    { s with registered := s.registered && !fdOk } .freeing
  | free {s} : Run .free s .freeing { s with guard := { s.guard with freed := true } } .idle

abbrev State (T : Type) := Threads.Config T Shared Pc

-- A handle that has just been opened.
structure Opened {T : Type} (c : State T) : Prop where
  guard : c.shared.guard = ⟨false, 0, false, false⟩
  qlock : c.shared.conf.qlock = false
  idle  : ∀ t, c.pc t = .idle

end Handle.Teardown
