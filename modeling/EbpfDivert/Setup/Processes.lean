import EbpfDivert.Setup.Open
import Mathlib.Logic.Relation

-- The handles of all processes and what they have in the system.
namespace Setup

-- A handle and the process that has opened it. If the process has ended, no one closes the handle.
structure Held where
  process : Process
  h       : Handle
  live    : Bool
deriving DecidableEq

structure Sys where
  world   : World
  handles : List Held

def Sys.start : Sys := ⟨⟨∅, ∅, .empty, fun _ => [], fun _ => 0⟩, []⟩

-- The handles that are left when the registry has been reaped.
def Sys.keep (s : Sys) (t : Table) : List Held :=
  s.handles.filter fun o => o.live || o.h.regId = 0 || (t.lookup o.h.regId).isSome

-- The processes that have open handles are recognised.
def Sys.Recognised (s : Sys) (procs : Procs) : Prop :=
  ∀ o ∈ s.handles, o.live → ∀ e, s.world.registry.lookup o.h.regId = some e → e.Alive procs

-- The filters of a process stay when it ends, its links do not.
def Sys.exit (s : Sys) (p : Process) : Sys where
  world :=
    { s.world with
      links  := s.world.links \ ((s.handles.filter (·.process = p)).flatMap (·.h.links)).toFinset
      hbList := Function.update s.world.hbList p [] }
  handles := s.handles.map fun o => if o.process = p then { o with live := false } else o

-- The steps of all processes, which hold the lock of the registry where they use it. A handle that
-- is closed can open the registry. Other programs change filters of their own.
inductive Step (k : Kernel) : Sys → Sys → Prop
  | opened {s self env args h w} (ho : ebpfdivertOpen k self env args s.world = (.ok h, w))
    (hr : s.Recognised env.procs) :
    Step k s ⟨w, ⟨self, h, true⟩ :: s.keep (env.settle s.world).registry⟩
  | failed {s self env args err w} (ho : ebpfdivertOpen k self env args s.world = (.error err, w))
    (hr : s.Recognised env.procs) : Step k s ⟨w, s.keep w.registry⟩
  | unregister {s procs ok} (hr : s.Recognised procs) :
    Step k s ⟨registryReap procs ok s.world, s.keep (registryReap procs ok s.world).registry⟩
  | closed {s o} (hm : o ∈ s.handles) (hl : o.live) :
    Step k s ⟨ebpfdivertClose o.process true o.h s.world, s.handles.erase o⟩
  | ended {s p} : Step k s (s.exit p)
  | other {s filters} (hf : ∀ o ∈ s.handles, ∀ f ∈ o.h.filters, f ∈ filters) :
    Step k s { s with world.filters := filters }

abbrev Reachable (k : Kernel) : Sys → Prop :=
  Relation.ReflTransGen (Step k) .start

def RegEntry.process (e : RegEntry) : Process :=
  ⟨e.pid, e.pidStart⟩

-- The environment of a process that has not ended: if it can open the registry, it has the memory to
-- look at all entries, and it recognises those of processes that have ended.
structure RegEnv.Sound (env : RegEnv) (p : Process) (t : Table) (dead : List Process) : Prop where
  reapOk : env.regOk → env.reapOk
  maxOk  : env.regOk → env.maxOk
  alive  : ∀ id e, t.lookup id = some e → (e.Alive env.procs ↔ e.process ∉ dead)
  lives  : p ∉ dead
  start  : procStartTime env.procs p.pid = p.start

-- The steps of processes that recognise each other, with the processes that have ended.
inductive SoundStep (k : Kernel) : Sys × List Process → Sys × List Process → Prop
  | opened {s dead self env args h w} (ho : ebpfdivertOpen k self env args s.world = (.ok h, w))
    (hr : s.Recognised env.procs) (hs : env.Sound self s.world.registry dead) :
    SoundStep k (s, dead) (⟨w, ⟨self, h, true⟩ :: s.keep (env.settle s.world).registry⟩, dead)
  | failed {s dead self env args err w} (ho : ebpfdivertOpen k self env args s.world = (.error err, w))
    (hr : s.Recognised env.procs) (hs : env.Sound self s.world.registry dead) :
    SoundStep k (s, dead) (⟨w, s.keep w.registry⟩, dead)
  | unregister {s dead self} {env : RegEnv} (hr : s.Recognised env.procs)
    (hs : env.Sound self s.world.registry dead) :
    SoundStep k (s, dead) (⟨env.settle s.world, s.keep (env.settle s.world).registry⟩, dead)
  | closed {s dead o} (hm : o ∈ s.handles) (hl : o.live) :
    SoundStep k (s, dead) (⟨ebpfdivertClose o.process true o.h s.world, s.handles.erase o⟩, dead)
  | ended {s dead p} : SoundStep k (s, dead) (s.exit p, p :: dead)
  | other {s dead filters} (hf : ∀ o ∈ s.handles, ∀ f ∈ o.h.filters, f ∈ filters) :
    SoundStep k (s, dead) ({ s with world.filters := filters }, dead)

abbrev SoundRun (k : Kernel) : Sys × List Process → Prop :=
  Relation.ReflTransGen (SoundStep k) (.start, [])

-- The calls of `bpf_tc_detach` in `registry_reap`.
def reapCalls (procs : Procs) (reapOk : Bool) (t : Table) : List TcFilter :=
  if reapOk then (reaped procs t).calls else []

end Setup
