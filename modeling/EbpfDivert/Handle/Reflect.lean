import EbpfDivert.Handle.Receive
import EbpfDivert.Primitives.Threads
import EbpfDivert.Wd.Serialize
import Mathlib.Data.List.AList

-- How a handle of the reflect layer polls the registry of all handles.
namespace Handle.Reflect

def regFilterMax : Nat := 4096

def eventReflectOpen  : BitVec 8 := 8
def eventReflectClose : BitVec 8 := 9

-- What the registry holds of a handle, as far as it is reported.
structure RegEntry where
  timestamp  : Int
  pid        : BitVec 32
  layer      : Wd.Layer
  flags      : BitVec 64
  priority   : Int
  filterLen  : Nat
  filter     : Bytes
  filter_len : filter.length = regFilterMax
deriving DecidableEq

-- The filter of a handle in its entry, which is zeroed before.
def regFilter : Option Wd.Filter → Bytes × Nat
  | none        => (.replicate regFilterMax 0, 0)
  | some filter =>
    let (data, n) := Wd.filterSerialize filter (.replicate regFilterMax 0)
    (data, n.getD 0)

theorem length_regFilter {filter : Option Wd.Filter} : (regFilter filter).1.length = regFilterMax := by
  cases filter
  case none => exact List.length_replicate
  case some => rw [regFilter, Wd.length_filterSerialize, List.length_replicate]

-- This part of an entry.
def RegEntry.of (timestamp : Int) (pid : BitVec 32) (layer : Wd.Layer) (flags : BitVec 64)
    (priority : Int) (filter : Option Wd.Filter) : RegEntry where
  timestamp  := timestamp
  pid        := pid
  layer      := layer
  flags      := flags
  priority   := priority
  filterLen  := (regFilter filter).2
  filter     := (regFilter filter).1
  filter_len := length_regFilter

-- What `registry_add` enters for a handle.
def registryAdd (h : Handle) (timestamp : Int) (pid : BitVec 32) (priority : Int) : RegEntry :=
  .of timestamp pid h.layer h.flags priority (some h.filter)

def RegEntry.data (e : RegEntry) : Wd.DataReflect :=
  ⟨e.timestamp, e.pid, e.layer, e.flags, e.priority⟩

-- A handle that has been reported as open. The filter is a pointer.
structure Seen where
  id        : BitVec 64
  data      : Wd.DataReflect
  filterLen : Nat
  filter    : Option Nat

def Seen.zero : Seen :=
  ⟨0, ⟨0, 0, .network, 0, 0⟩, 0, none⟩

-- The blocks that have been allocated for filters.
abbrev Heap := AList fun _ : Nat => Bytes

-- An allocator does not return a block that is in use.
structure Malloc where
  pick  : Heap → Nat
  fresh : ∀ heap, pick heap ∉ heap

-- What polls of different threads share, under `poll_lock`. Of the cells that are allocated for
-- `seen` the first `nseen` are in use.
structure Shared where
  heap  : Heap
  seen  : List Seen
  nseen : Nat

def opened : Shared := ⟨∅, [], 0⟩

-- A call of `deliver_reflect`.
structure Call where
  id     : BitVec 64
  data   : Wd.DataReflect
  filter : Bytes
  event  : BitVec 8

-- The entry that is queued, if the filter of the handle accepts it.
def deliverReflect (env : Env) (h : Handle) (now : Int) (c : Call) : Option QEntry :=
  if !env.allocOk then none
  else
    let addr : Wd.Address :=
      { timestamp   := now
        layer       := .reflect
        event       := c.event
        sniffed     := true
        outbound    := false
        loopback    := false
        impostor    := false
        ipv6        := false
        ipChecksum  := false
        tcpChecksum := false
        udpChecksum := false
        network     := ⟨0, 0⟩
        flow        := ⟨0, 0, 0, .zero, .zero, 0, 0, 0⟩
        socket      := ⟨0, 0, 0, .zero, .zero, 0, 0, 0⟩
        reflect     := c.data }
    match Wd.filterEval h.filter env.hash c.filter addr with
    | some true => some ⟨{ addr with stash := none }, c.filter⟩
    | _         => none

-- A poll in progress, with the cells of its array `alive`.
structure Poll extends Shared where
  alive : List Bool
  calls : List Call

-- A key of the registry, what is found under it and whether memory can be allocated for it. New
-- cells of `alive` hold anything.
structure Item where
  key      : BitVec 64
  entry    : Option RegEntry
  seenOk   : Bool
  aliveOk  : Bool
  filterOk : Bool
  junk     : Nat → Bool

section

variable {α : Type}

def realloc (n : Nat) (junk : Nat → α) (cells : List α) : List α :=
  (List.range n).map fun i => cells.getD i (junk i)

def store (cells : List α) (i : Nat) (a : α) : Option (List α) :=
  if i < cells.length then some (cells.set i a) else none

end

-- The index of a key, which is `nseen` if it is new. Here and below the result is missing if memory
-- is accessed that is not allocated.
def find (key : BitVec 64) (seen : List Seen) : (left i : Nat) → Option Nat
  | 0, i        => some i
  | left + 1, i => do
    let r ← seen[i]?
    if r.id = key then some i else find key seen left (i + 1)

-- The bytes of a filter that are copied.
def content (heap : Heap) (r : Seen) : Option Bytes :=
  match r.filter with
  | none   => if r.filterLen = 0 then some [] else none
  | some p => do
    let b ← heap.lookup p
    if b.length < r.filterLen then none else some (b.take r.filterLen)

def deliver (event : BitVec 8) (r : Seen) (s : Poll) : Option Poll := do
  let filter ← content s.heap r
  some { s with calls := s.calls ++ [⟨r.id, r.data, filter, event⟩] }

-- A new handle, with a copy of its filter.
def record (m : Malloc) (item : Item) (e : RegEntry) (heap : Heap) : Heap × Seen :=
  let len := if e.filterLen ≤ regFilterMax then e.filterLen else 0
  if item.filterOk then
    (heap.insert (m.pick heap) (e.filter.take len), ⟨item.key, e.data, len, some (m.pick heap)⟩)
  else (heap, ⟨item.key, e.data, 0, none⟩)

def append (m : Malloc) (item : Item) (e : RegEntry) (s : Poll) : Option Poll :=
  if !item.seenOk then some s
  else
    let seen := realloc (s.nseen + 1) (fun _ => .zero) s.seen
    if !item.aliveOk then some { s with seen }
    else do
      let (heap, r) := record m item e s.heap
      let seen ← store seen s.nseen r
      let alive ← store (realloc (s.nseen + 2) item.junk s.alive) s.nseen true
      deliver eventReflectOpen r { s with heap, seen, alive, nseen := s.nseen + 1 }

def scanItem (m : Malloc) (s : Poll) (item : Item) : Option Poll :=
  match item.entry with
  | none   => some s
  | some e => do
    let i ← find item.key s.seen s.nseen 0
    if i < s.nseen then
      let alive ← store s.alive i true
      some { s with alive }
    else append m item e s

def release (r : Seen) (heap : Heap) : Option Heap :=
  match r.filter with
  | none   => some heap
  | some p => if p ∈ heap then some (heap.erase p) else none

-- The last handle takes the place of one that has been closed.
def remove (i : Nat) (s : Poll) : Option Poll := do
  let r ← s.seen[i]?
  let s ← deliver eventReflectClose r s
  let heap ← release r s.heap
  let last ← s.seen[s.nseen - 1]?
  let seen ← store s.seen i last
  let b ← s.alive[s.nseen - 1]?
  let alive ← store s.alive i b
  some { s with heap, seen, alive, nseen := s.nseen - 1 }

-- Every iteration brings `i` and `nseen` closer to each other.
def removeDead : Nat → Nat → Poll → Option Poll
  | 0, _, s        => some s
  | fuel + 1, i, s =>
    if s.nseen ≤ i then some s
    else do
      let a ← s.alive[i]?
      if a then removeDead fuel (i + 1) s
      else
        let s ← remove i s
        removeDead fuel i s

-- What `reflect_poll` does under the lock. It has read `n₀` from `nseen` before.
def poll (m : Malloc) (n₀ : Nat) (items : List Item) (s : Shared) : Option (Shared × List Call) := do
  let s ← items.foldlM (scanItem m) ⟨s, .replicate (n₀ + 1) false, []⟩
  let s ← removeDead s.nseen 0 s
  some (s.toShared, s.calls)

-- Where a thread is in `reflect_poll`: not in it, between the allocation of `alive` for a number of
-- handles and the lock, or after an access to memory that is not allocated.
inductive Pc
  | idle
  | armed (n₀ : Nat)
  | faulted
deriving DecidableEq

inductive Event
  | arm
  | poll
  | fault

-- A poll that is not due or cannot allocate memory at first returns without a step.
inductive Run (m : Malloc) : Threads.Program Shared Pc Event
  | arm {s} : Run m .arm s .idle s (.armed s.nseen)
  | poll {s s' n₀ items calls} (hp : poll m n₀ items s = some (s', calls)) :
    Run m .poll s (.armed n₀) s' .idle
  | fault {s n₀ items} (hp : Reflect.poll m n₀ items s = none) : Run m .fault s (.armed n₀) s .faulted

end Handle.Reflect
