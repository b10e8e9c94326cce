import EbpfDivert.Handle.Reflect
import EbpfDivert.Primitives.BoundedMap
import EbpfDivert.Registry.Basic
import Mathlib.Data.Finset.Basic

-- What a handle has in the system: filters, links, an entry of the registry and a heartbeat.
namespace Setup

def regMaxAttach : Nat := 128
def ebdMaxLinks  : Nat := 16

inductive Errno
  | inval
  | nomem
  | noent
  | nodev
  | srch
  | exist
  | toobig
  | opnotsupp
  | sys (code : Nat)
deriving DecidableEq

inductive AttachPoint
  | ingress
  | egress
deriving DecidableEq

structure TcHook where
  ifindex     : Nat
  attachPoint : AttachPoint
deriving DecidableEq

structure TcOpts where
  handle   : Nat
  priority : Nat
deriving DecidableEq

-- A filter, as `bpf_tc_detach` finds it.
structure TcFilter where
  hook : TcHook
  opts : TcOpts
deriving DecidableEq

-- The kernel gives a filter a handle that is not in use under its priority, and a link a new id.
structure Kernel where
  handle       : Finset TcFilter → TcHook → (priority : Nat) → Nat
  handle_fresh : ∀ filters hook priority,
    TcFilter.mk hook ⟨handle filters hook priority, priority⟩ ∉ filters
  link         : Finset Nat → Nat
  link_fresh   : ∀ links, link links ∉ links

structure Attachment where
  ifindex : Nat
  ingress : Bool
  hook    : TcHook
  opts    : TcOpts
  legacy  : Bool
deriving DecidableEq

def Attachment.filter (a : Attachment) : TcFilter := ⟨a.hook, a.opts⟩

structure RegAttach where
  ifindex     : Nat
  attachPoint : AttachPoint
  handle      : Nat
  priority    : Nat
deriving DecidableEq

def RegAttach.filter (a : RegAttach) : TcFilter := ⟨⟨a.ifindex, a.attachPoint⟩, a.handle, a.priority⟩

-- An entry of the registry. What it has room for beyond `nattach` attachments is not listed.
structure RegEntry where
  pid       : Nat
  pidStart  : Nat
  tcPrio    : Nat
  legacy    : Bool
  attach    : List RegAttach
  attach_le : attach.length ≤ regMaxAttach
  -- What the handles of the reflect layer read.
  report    : Handle.Reflect.RegEntry
deriving DecidableEq

-- The hash map that the processes share.
abbrev Table := BoundedMap (BitVec 64) RegEntry Registry.registryMax

-- A process is told from a later one with the same id by the time of its start.
structure Process where
  pid   : Nat
  start : Nat
deriving DecidableEq

-- What can be learnt of processes: the error of `kill(pid, 0)` and the start time that is read from
-- `/proc/<pid>/stat`, if the file can be read.
structure Procs where
  kill : Nat → Option Errno
  stat : Nat → Option Nat

def procStartTime (procs : Procs) (pid : Nat) : Nat :=
  (procs.stat pid).getD 0

def procAlive (procs : Procs) (pid start : Nat) : Bool :=
  procs.kill pid ≠ some .srch && procStartTime procs pid = start

def RegEntry.Alive (e : RegEntry) (procs : Procs) : Prop :=
  procAlive procs e.pid e.pidStart

instance (e : RegEntry) (procs : Procs) : Decidable (e.Alive procs) :=
  inferInstanceAs <| Decidable (_ = true)

-- `hb_list` and `local_max_tc_prio` are variables of each process. `hb_list` has the addresses of
-- handles.
structure World where
  filters        : Finset TcFilter
  links          : Finset Nat
  registry       : Table
  hbList         : Process → List Nat
  localMaxTcPrio : Process → Nat

structure Handle where
  addr      : Nat
  layer     : Wd.Layer
  flags     : BitVec 64
  priority  : Int
  tcPrio    : Nat
  loIfindex : Nat
  skipLo    : Bool
  filter    : Option Wd.Filter
  att       : List Attachment
  links     : List Nat
  regId     : BitVec 64
deriving DecidableEq

def Handle.filters (h : Handle) : List TcFilter :=
  h.att.map (·.filter)

end Setup
