import EbpfDivert.Wd.Basic
import Mathlib.Logic.Function.Basic
import Mathlib.Logic.Relation

-- The handles of all processes, and the registry that the processes share.
namespace Registry

def autoPriorityBase : Nat := 30001
def registryMax      : Nat := 1024
def priorityHighest  : Int := 30000
def priorityLowest   : Int := -30000

structure RegEntry where
  id     : BitVec 64
  pid    : Nat
  tcPrio : Nat
  deriving DecidableEq

-- An open handle. `regId` is zero if it has not been registered, and `found` is the highest TC
-- priority that was known when it was opened.
structure Opened where
  regId    : BitVec 64
  pid      : Nat
  layer    : Wd.Layer
  priority : Int
  tcPrio   : Nat
  found    : Nat
  deriving DecidableEq

def Opened.IsNetwork (h : Opened) : Prop :=
  h.layer = .network ∨ h.layer = .networkForward

structure Sys where
  entries  : List RegEntry
  -- `local_max_tc_prio` of each process
  localMax : Nat → Nat
  handles  : List Opened
  dead     : List Nat

def Sys.start : Sys := ⟨[], fun _ => 0, [], []⟩

-- What an open depends on: whether the registry can be opened, the random id of the entry (zero if
-- there is none), and whether everything else succeeds.
structure OpenEnv where
  regOk  : Bool
  id     : BitVec 64
  openOk : Bool

-- Entries of dead processes are removed.
def registryReap (s : Sys) : List RegEntry :=
  s.entries.filter (·.pid ∉ s.dead)

def registryMaxTcPrio (entries : List RegEntry) : Nat :=
  (entries.map (·.tcPrio)).foldr max 0

-- The TC priority behind all that are in use.
def nextPrio (found : Nat) : Nat :=
  min (if autoPriorityBase ≤ found then found + 1 else autoPriorityBase) 0xFFFF

def chooseTcPrio (priority : Int) (found : Nat) : Nat :=
  if priority ≠ 0 then (autoPriorityBase - priority).toNat else nextPrio found

-- An entry is only added under a new id, and if there is room for it.
def registryAdd (entries : List RegEntry) (e : RegEntry) : List RegEntry × BitVec 64 :=
  if e.id ≠ 0 ∧ e.id ∉ entries.map (·.id) ∧ entries.length < registryMax then (entries ++ [e], e.id)
  else (entries, 0)

namespace Sys

-- `open_network` from the point on where it holds the lock of the registry.
def openNetwork (s : Sys) (pid : Nat) (layer : Wd.Layer) (priority : Int) (env : OpenEnv) : Sys :=
  let entries := if env.regOk then registryReap s else s.entries
  let found := max (if env.regOk then registryMaxTcPrio entries else 0) (s.localMax pid)
  let tcPrio := chooseTcPrio priority found
  let localMax := if priority ≠ 0 then s.localMax
    else Function.update s.localMax pid (max (s.localMax pid) tcPrio)
  if !env.openOk then { s with entries, localMax }
  else
    let (entries, regId) := if env.regOk then registryAdd entries ⟨env.id, pid, tcPrio⟩
      else (entries, 0)
    { s with entries, localMax, handles := s.handles ++ [⟨regId, pid, layer, priority, tcPrio, found⟩] }

-- Handles on the other layers have no TC priority.
def registerHandle (s : Sys) (pid : Nat) (layer : Wd.Layer) (priority : Int) (env : OpenEnv) : Sys :=
  let (entries, regId) := if env.regOk then registryAdd (registryReap s) ⟨env.id, pid, 0⟩
    else (s.entries, 0)
  { s with entries, handles := s.handles ++ [⟨regId, pid, layer, priority, 0, 0⟩] }

def close (s : Sys) (h : Opened) (regOk : Bool) : Sys :=
  { s with
    entries := if regOk ∧ h.regId ≠ 0 then s.entries.filter (·.id ≠ h.regId) else s.entries
    handles := s.handles.erase h }

-- A process that ends without closing its handles.
def exit (s : Sys) (pid : Nat) : Sys :=
  { s with
    handles := s.handles.filter (·.pid ≠ pid)
    dead    := pid :: s.dead }

end Sys

-- The steps of all processes. `ok` restricts what can go wrong.
inductive Step (ok : Sys → OpenEnv → Prop) : Sys → Sys → Prop
  | openNetwork {s pid layer priority env} (hp : pid ∉ s.dead) (he : ok s env)
    (hl : layer = .network ∨ layer = .networkForward) (h₁ : priorityLowest ≤ priority)
    (h₂ : priority ≤ priorityHighest) : Step ok s (s.openNetwork pid layer priority env)
  | registerHandle {s pid layer priority env} (hp : pid ∉ s.dead) (he : ok s env)
    (hl : layer ≠ .network ∧ layer ≠ .networkForward) :
    Step ok s (s.registerHandle pid layer priority env)
  | close {s h env} (hm : h ∈ s.handles) (he : ok s env) : Step ok s (s.close h env.regOk)
  | exit {s pid} : Step ok s (s.exit pid)

abbrev Run : Sys → Sys → Prop :=
  Relation.ReflTransGen (Step fun _ _ => True)

-- The registry is available and the ids are new.
def Shared (s : Sys) (env : OpenEnv) : Prop :=
  env.regOk ∧ env.id ≠ 0 ∧ env.id ∉ s.entries.map (·.id)

-- Processes that share the registry and have at most as many handles as fit into it.
abbrev SharedRun : Sys → Sys → Prop :=
  Relation.ReflTransGen fun s s' => Step Shared s s' ∧ s'.handles.length ≤ registryMax

end Registry
