import EbpfDivert.Handle.Queue
import EbpfDivert.Kernel.Process
import EbpfDivert.Kernel.Sockets
import EbpfDivert.Primitives.Threads

open Shared

-- The configuration of a handle that has programs in the kernel, and those who write it.
namespace Handle.Shutdown

def isEventLayer (layer : Wd.Layer) : Bool :=
  layer = .flow ∨ layer = .socket

-- `qlock` protects the queue and `cfg_lock` the two configurations. The programs read the copy in
-- the map, which is of the kind that the layer has.
structure Shared where
  layer    : Wd.Layer
  qlock    : Bool
  queue    : Queue
  cfg      : DivertConfig
  evcfg    : EventConfig
  map      : DivertConfig ⊕ EventConfig
  shutSend : Bool

def writeConfig (now : BitVec 64) (s : Shared) : Shared :=
  if isEventLayer s.layer then
    let evcfg := { s.evcfg with heartbeatNs := now, heartbeatTimeoutNs := heartbeatTimeoutNs }
    { s with evcfg, map := .inr evcfg }
  else
    let cfg := { s.cfg with heartbeatNs := now, heartbeatTimeoutNs := heartbeatTimeoutNs }
    { s with cfg, map := .inl cfg }

-- The region of `ebpfdivert_shutdown` under `cfg_lock`.
def setFlags (s : Shared) : Shared :=
  { s with
    cfg   := { s.cfg with flags := s.cfg.flags ||| cfgShutdown }
    evcfg := { s.evcfg with flags := s.evcfg.flags ||| evcfgShutdown } }

-- The sides that a shutdown is asked for. Other values are refused at once.
inductive How
  | recv
  | send
  | both
deriving DecidableEq

def How.recvs : How → Bool
  | .recv | .both => true
  | .send         => false

def How.sends : How → Bool
  | .send | .both => true
  | .recv         => false

-- What a shutdown does next: it takes `qlock`; with it, it sets the flags, writes them to the map
-- and wakes the receivers; without it, it stops those who send.
inductive At
  | locking
  | marking
  | writing
  | waking
  | sending
deriving DecidableEq

def At.Locked (l : At) : Prop :=
  l = .marking ∨ l = .writing ∨ l = .waking

instance : DecidablePred At.Locked := fun _ => inferInstanceAs (Decidable (_ ∨ _))

def How.first (how : How) : At :=
  if how.recvs then .locking else .sending

def How.rest (how : How) : Option At :=
  if how.sends then some .sending else none

-- The steps of `ebpfdivert_shutdown`, the last of which leads to no other. A region under
-- `cfg_lock` is one step. A handle without programs has no `cfg_fd`.
inductive Call (how : How) (hasConfig : Bool) : Shared → At → Shared → Option At → Prop
  | lock {s} (hq : s.qlock = false) (hs : s.queue.shutRecv = false) :
    Call how hasConfig s .locking
      { s with qlock := true, queue := { s.queue with shutRecv := true } } (some .marking)
  | again {s} (hq : s.qlock = false) (hs : s.queue.shutRecv) :
    Call how hasConfig s .locking { s with qlock := true } (some .waking)
  | mark {s} : Call how hasConfig s .marking (setFlags s)
    (some (if hasConfig then .writing else .waking))
  | write {s} (now : BitVec 64) :
    Call how hasConfig s .writing (writeConfig now s) (some .waking)
  | wake {s} (fdOk : Bool) : Call how hasConfig s .waking
    { s with qlock := false, queue := s.queue.wakeUpdate fdOk } how.rest
  | send {s} : Call how hasConfig s .sending { s with shutSend := true } none

-- Where a thread is: in no call or in `ebpfdivert_shutdown`.
inductive Pc
  | idle
  | shutdown (how : How) (l : At)
deriving DecidableEq

inductive Event
  | call
  | step
  | returned (how : How)
  | beat
  | setParam
deriving DecidableEq

-- Regions under a mutex. The heartbeat does not take `qlock`.
inductive Run : Threads.Program Shared Pc Event
  | call {s} (how : How) : Run .call s .idle s (.shutdown how how.first)
  | step {s s' how l l'} (hs : Call how true s l s' (some l')) :
    Run .step s (.shutdown how l) s' (.shutdown how l')
  | returned {s s' how l} (hs : Call how true s l s' none) :
    Run (.returned how) s (.shutdown how l) s' .idle
  | beat {s} (now : BitVec 64) : Run .beat s .idle (writeConfig now s) .idle
  | setParam {s queue param value} (hq : s.qlock = false)
    (hp : s.queue.setParam param value = .ok queue) :
    Run .setParam s .idle { s with queue } .idle

end Handle.Shutdown
