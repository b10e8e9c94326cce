import EbpfDivert.Setup.Basic
import EbpfDivert.Prefilter.Events
import EbpfDivert.Prefilter.Lower

open Shared Prefilter
open Handle (flagSniff flagSendOnly validFlags)

-- How handles are opened and closed.
namespace Setup

structure Iface where
  index : Nat
  name  : String

-- The interfaces and what comes of attaching to them. A result is missing if there is no error.
structure IfaceEnv where
  ifs       : Except Errno (List Iface)
  attOk     : Bool
  nameOk    : String → Bool
  progOk    : AttachPoint → Bool
  hookErr   : TcHook → Option Errno
  attachErr : TcHook → Option Errno

-- Whether the registry can be opened and memory for its entries allocated, the random id of a new
-- entry (zero if there is none), the processes that are looked at, and the time.
structure RegEnv where
  regOk    : Bool
  reapOk   : Bool
  maxOk    : Bool
  addOk    : Bool
  updateOk : Bool
  id       : BitVec 64
  procs    : Procs
  now      : Int

-- The other things that can go wrong.
structure OpenEnv extends IfaceEnv, RegEnv where
  allocOk      : Bool
  addr         : Nat
  lo           : Nat
  fdsErr       : Option Errno
  wakeErr      : Option Errno
  compiled     : Except Errno Wd.Filter
  filterFlags  : BitVec 64
  objectErr    : Option Errno
  loadErr      : Option Errno
  mapsOk       : Bool
  resOk        : Bool
  rulesMapsOk  : Bool
  lowerOk      : Bool
  rulesErr     : Option Errno
  configErr    : Option Errno
  reconfigErr  : Option Errno
  ringErr      : Option Errno
  ringEpollErr : Option Errno
  cgroupErr    : Option Errno
  cgroupProgOk : String → Bool
  linkErr      : String → Option Errno
  timerErr     : Option Errno
  timerSetErr  : Option Errno
  timerPollErr : Option Errno

structure OpenArgs where
  layer    : Wd.Layer
  priority : Int
  flags    : BitVec 64
  ifnames  : Option (List String)

-- A handle that is being opened.
structure Opening where
  world : World
  h     : Handle

-- What has been done before an error stays done.
abbrev Prog := EStateM Errno Opening

def check (err : Option Errno) : Prog Unit :=
  match err with
  | none   => pure ()
  | some e => throw e

def lift {α : Type} (r : Except Errno α) : Prog α :=
  match r with
  | .error e => throw e
  | .ok a    => pure a

def bpfTcDetach (filters : Finset TcFilter) (f : TcFilter) : Finset TcFilter :=
  filters.erase f

section Attach

variable (k : Kernel) (env : IfaceEnv)

def attachPoint (ingress : Bool) : AttachPoint :=
  if ingress then .ingress else .egress

-- The attachment, with the handle that the kernel has given to the filter.
def attachLegacy (filters : Finset TcFilter) (ifindex : Nat) (ingress : Bool) (tcPrio : Nat) :
    Except Errno Attachment := do
  let hook := ⟨ifindex, attachPoint ingress⟩
  if let some e := env.hookErr hook then
    if e ≠ .exist then
      throw e
  if let some e := env.attachErr hook then
    throw e
  return ⟨ifindex, ingress, hook, ⟨k.handle filters hook tcPrio, tcPrio⟩, true⟩

def attachOne (ifindex : Nat) (ingress : Bool) : Prog (Option Errno) := do
  let s ← get
  if !env.progOk (attachPoint ingress) then
    return some .noent
  match attachLegacy k env s.world.filters ifindex ingress s.h.tcPrio with
  | .error e => return some e
  | .ok a    =>
    set { s with
      world.filters := insert a.filter s.world.filters
      h.att         := s.h.att ++ [a] : Opening }
    return none

def ifaceSelected (ifnames : Option (List String)) (name : String) : Bool :=
  match ifnames with
  | none       => true
  | some names => name ∈ names

def attachInterfaces (ifnames : Option (List String)) : Prog Unit := do
  let ifs ← lift env.ifs
  unless env.attOk do
    throw .nomem
  for name in ifnames.getD [] do
    unless env.nameOk name do
      throw .nodev
  let lo := (← get).h.loIfindex
  let mut attached := 0
  let mut err := none
  let mut loSelected := false
  for it in ifs do
    let sel := ifaceSelected ifnames it.name
    if it.index = lo then
      loSelected := sel
    -- `lo` is always needed.
    if !sel && it.index ≠ lo then
      continue
    err ← attachOne k env it.index true
    if err.isNone then
      err ← attachOne k env it.index false
    if let some e := err then
      if sel && ifnames.isSome then
        throw e
      continue
    if sel then
      attached := attached + 1
  unless loSelected do
    modify fun s => { s with h.skipLo := true }
  if attached = 0 then
    throw (err.getD .nodev)

end Attach

def detachAll (h : Handle) (filters : Finset TcFilter) : Finset TcFilter :=
  h.att.foldl (fun filters a => if a.legacy then bpfTcDetach filters a.filter else filters) filters

def freeHandle (s : Opening) : World :=
  { s.world with
    filters := detachAll s.h s.world.filters
    links   := s.h.links.foldl Finset.erase s.world.links }

-- The filters of a dead process that are detached.
def detachLegacyEntry (e : RegEntry) : List TcFilter :=
  (e.attach.take regMaxAttach).map (·.filter)

-- The calls of `bpf_tc_detach` and the entries that are to be deleted.
structure Reaped where
  calls : List TcFilter
  dead  : List (BitVec 64)

def reapEntry (procs : Procs) (r : Reaped) (entry : BitVec 64 × RegEntry) : Reaped :=
  if procAlive procs entry.2.pid entry.2.pidStart then r
  else
    { calls := if entry.2.legacy then r.calls ++ detachLegacyEntry entry.2 else r.calls
      dead  := if r.dead.length < Registry.registryMax then r.dead ++ [entry.1] else r.dead }

def reaped (procs : Procs) (t : Table) : Reaped :=
  t.toList.foldl (reapEntry procs) ⟨[], []⟩

def registryReap (procs : Procs) (reapOk : Bool) (w : World) : World :=
  if !reapOk then w
  else
    let r := reaped procs w.registry
    { w with
      filters  := r.calls.foldl bpfTcDetach w.filters
      registry := r.dead.foldl BoundedMap.erase w.registry }

-- The system when a handle has got to the registry.
def RegEnv.settle (env : RegEnv) (w : World) : World :=
  if env.regOk then registryReap env.procs env.reapOk w else w

def registryMaxTcPrio (t : Table) : Nat :=
  Registry.registryMaxTcPrio <| t.toList.map fun (id, e) => ⟨id, e.pid, e.tcPrio⟩

def chooseTcPrio (self : Process) (env : RegEnv) (s : Opening) : Opening :=
  let localMax := s.world.localMaxTcPrio self
  let found := max (if env.regOk && env.maxOk then registryMaxTcPrio s.world.registry else 0) localMax
  let tcPrio := Registry.chooseTcPrio s.h.priority found
  { s with
    h.tcPrio             := tcPrio
    world.localMaxTcPrio := if s.h.priority ≠ 0 then s.world.localMaxTcPrio
      else Function.update s.world.localMaxTcPrio self (max localMax tcPrio) }

def Attachment.record (a : Attachment) : RegAttach :=
  ⟨a.ifindex, a.hook.attachPoint, a.opts.handle, a.opts.priority⟩

def recordAll : List Attachment → List RegAttach → List RegAttach
  | [], acc      => acc
  | a :: as, acc =>
    if acc.length < regMaxAttach then recordAll as (if a.legacy then acc ++ [a.record] else acc)
    else acc

theorem length_recordAll_le {as : List Attachment} {acc : List RegAttach}
    (h : acc.length ≤ regMaxAttach) : (recordAll as acc).length ≤ regMaxAttach := by
  induction as generalizing acc
  case nil => exact h
  case cons a as ih =>
    rw [recordAll]
    split
    case isFalse => exact h
    case isTrue h =>
      apply ih
      split
      case isTrue  => rwa [List.length_append, List.length_singleton, Nat.succ_le_iff]
      case isFalse => exact h.le

def regEntry (self : Process) (env : RegEnv) (h : Handle) : RegEntry :=
  let attach := recordAll h.att []
  { pid       := self.pid
    pidStart  := procStartTime env.procs self.pid
    tcPrio    := h.tcPrio
    legacy    := !attach.isEmpty
    attach    := attach
    attach_le := length_recordAll_le (Nat.zero_le _)
    report    := .of env.now (.ofNat 32 self.pid) h.layer h.flags h.priority h.filter }

-- The handle keeps the id zero if there is no entry for it.
def registryAdd (self : Process) (env : RegEnv) (s : Opening) : Opening :=
  if !env.regOk || !env.addOk || env.id = 0 || !env.updateOk then s
  else match s.world.registry.insertNew env.id (regEntry self env s.h) with
    | none          => s
    | some registry => { s with world.registry := registry, h.regId := env.id }

-- Both are left out if the registry cannot be opened.
def registerHandle (self : Process) (env : RegEnv) (s : Opening) : Opening :=
  registryAdd self env { s with world := env.settle s.world }

section Open

variable (k : Kernel) (self : Process) (env : OpenEnv)

def loadRules (filter : Wd.Filter) : Prog Unit := do
  unless env.resOk do
    throw .nomem
  unless env.rulesMapsOk do
    throw .noent
  if (pfLower filter).isNone then
    throw .inval
  unless env.lowerOk do
    throw .nomem
  check env.rulesErr

-- `open_network` up to the point where it takes the lock of the registry.
def loadNetwork (filter : Wd.Filter) : Prog Unit := do
  check env.objectErr
  check env.loadErr
  unless env.mapsOk do
    throw .noent
  loadRules env filter
  unless Flags.has (← get).h.flags flagSendOnly do
    check env.ringErr
    check env.ringEpollErr

-- What it does under the lock.
def attachNetwork (ifnames : Option (List String)) : Prog Unit := do
  modify fun s => { s with world := env.settle s.world }
  modify (chooseTcPrio self env.toRegEnv)
  check env.configErr
  unless Flags.has (← get).h.flags flagSendOnly do
    attachInterfaces k env.toIfaceEnv ifnames
    -- `CFG_F_SKIP_LO` may have been set.
    check env.reconfigErr
  modify (registryAdd self env.toRegEnv)

def openNetwork (ifnames : Option (List String)) (filter : Wd.Filter) : Prog Unit := do
  loadNetwork env filter
  attachNetwork k self env ifnames

def attachCgroupProg (name : String) : Prog Unit := do
  let s ← get
  unless env.cgroupProgOk name do
    throw .noent
  if s.h.links.length = ebdMaxLinks then
    throw .toobig
  check (env.linkErr name)
  let link := k.link s.world.links
  set { s with world.links := insert link s.world.links, h.links := s.h.links ++ [link] : Opening }

def socketProgs : List String :=
  ["ev_sock_create", "ev_post_bind4", "ev_post_bind6", "ev_connect4", "ev_connect6", "ev_sockops",
    "ev_sock_release"]

def flowProgs : List String :=
  ["ev_sock_create", "ev_sockops", "ev_sock_release", "ev_skb_egress", "ev_skb_ingress"]

-- `FILTER_FLAG_EVENT_SOCKET_LISTEN` and `FILTER_FLAG_EVENT_SOCKET_ACCEPT`
abbrev filterListenAccept : BitVec 64 := 0x1800

def openEvents (filter : Wd.Filter) : Prog Unit := do
  let h := (← get).h
  if h.layer = .socket && !Flags.has h.flags flagSniff then
    -- The kernel must know the exact filter to block.
    if Flags.has env.filterFlags filterListenAccept then
      throw .opnotsupp
    unless env.lowerOk do
      throw .nomem
    unless (pfLowerEvents filter eventRulesMax).2 do
      throw .opnotsupp
  check env.objectErr
  check env.loadErr
  unless env.mapsOk do
    throw .noent
  check env.rulesErr
  check env.configErr
  check env.ringErr
  check env.ringEpollErr
  check env.cgroupErr
  for name in if h.layer = .socket then socketProgs else flowProgs do
    attachCgroupProg k env name

def openReflect : Prog Unit := do
  check env.timerErr
  check env.timerSetErr
  check env.timerPollErr

def openLayer (args : OpenArgs) : Prog Unit := do
  check env.fdsErr
  check env.wakeErr
  let filter ← lift env.compiled
  modify fun s => { s with h.filter := some filter }
  match args.layer with
  | .network | .networkForward => openNetwork k self env args.ifnames filter
  | .flow | .socket            =>
    openEvents k env filter
    modify (registerHandle self env.toRegEnv)
  | .reflect                   =>
    openReflect env
    modify (registerHandle self env.toRegEnv)

end Open

def OpenArgs.valid (args : OpenArgs) : Bool :=
  Registry.priorityLowest ≤ args.priority && args.priority ≤ Registry.priorityHighest &&
  validFlags args.layer args.flags

def Handle.new (env : OpenEnv) (args : OpenArgs) : Handle where
  addr      := env.addr
  layer     := args.layer
  flags     := args.flags
  priority  := args.priority
  tcPrio    := 0
  loIfindex := if env.lo = 0 then 1 else env.lo
  skipLo    := false
  filter    := none
  att       := []
  links     := []
  regId     := 0

def heartbeatAdd (self : Process) (s : Opening) : World :=
  { s.world with
    hbList := Function.update s.world.hbList self (s.h.addr :: s.world.hbList self) }

def heartbeatRemove (self : Process) (s : Opening) : World :=
  { s.world with
    hbList := Function.update s.world.hbList self ((s.world.hbList self).erase s.h.addr) }

-- The handle, or the error that is left in `errno` if it is null.
def ebpfdivertOpen (k : Kernel) (self : Process) (env : OpenEnv) (args : OpenArgs) (w : World) :
    Except Errno Handle × World :=
  if !args.valid then (.error .inval, w)
  else if !env.allocOk then (.error .nomem, w)
  else match openLayer k self env args ⟨w, .new env args⟩ with
    | .ok _ s    => (.ok s.h, heartbeatAdd self s)
    | .error e s => (.error e, freeHandle s)

-- What the thread that closes a handle does to the system.
def ebpfdivertClose (self : Process) (regOk : Bool) (h : Handle) (w : World) : World :=
  let w := heartbeatRemove self ⟨w, h⟩
  let w := { w with filters := detachAll h w.filters }
  let w := if h.regId ≠ 0 ∧ regOk then { w with registry := w.registry.erase h.regId } else w
  freeHandle ⟨w, { h with att := [] }⟩

end Setup
