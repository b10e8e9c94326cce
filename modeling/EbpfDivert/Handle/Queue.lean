import EbpfDivert.Handle.Receive
import EbpfDivert.Primitives.Linked

open Linked

-- The receive side of a handle.
namespace Handle

def queueLengthDefault : BitVec 64 := 4096
def queueLengthMin     : BitVec 64 := 32
def queueLengthMax     : BitVec 64 := 16384
def queueTimeDefault   : BitVec 64 := 2000
def queueTimeMin       : BitVec 64 := 100
def queueTimeMax       : BitVec 64 := 16000
def queueSizeDefault   : BitVec 64 := 4194304
def queueSizeMin       : BitVec 64 := 65535
def queueSizeMax       : BitVec 64 := 33554432

-- An entry with a length that its field can hold.
structure Entry extends QEntry where
  len_lt : data.length < 2 ^ 32

def Entry.len (e : Entry) : Nat := e.data.length

structure Queue where
  -- The entries that have been linked and not been freed.
  heap        : Heap Entry
  qhead       : Option Nat
  qtail       : Option Nat
  qlen        : BitVec 64
  qbytes      : BitVec 64
  queueLength : BitVec 64
  queueTime   : BitVec 64
  queueSize   : BitVec 64
  queueDrops  : BitVec 64
  shutRecv    : Bool
  wakeSet     : Bool

namespace Queue

def opened : Queue where
  heap        := ∅
  qhead       := none
  qtail       := none
  qlen        := 0
  qbytes      := 0
  queueLength := queueLengthDefault
  queueTime   := queueTimeDefault
  queueSize   := queueSizeDefault
  queueDrops  := 0
  shutRecv    := false
  wakeSet     := false

def want (q : Queue) : Bool :=
  q.qhead.isSome || q.shutRecv

-- `fdOk` tells whether reading or writing the descriptor succeeds.
def wakeUpdate (fdOk : Bool) (q : Queue) : Queue :=
  if q.want ∧ !q.wakeSet then { q with wakeSet := fdOk }
  else if !q.want ∧ q.wakeSet then { q with wakeSet := !fdOk }
  else q

-- Entries are linked behind the last one. The result is missing if memory is accessed that is not
-- allocated.
def link (q : Queue) (p : Nat) (e : Entry) : Option (Heap Entry × Option Nat) :=
  let heap := q.heap.insert p ⟨e, none⟩
  match q.qtail with
  | some t => do
    let node ← heap.lookup t
    some (heap.insert t { node with next := some p }, q.qhead)
  | none => some (heap, some p)

-- The entry `e` has been allocated at `p`.
def push (fdOk : Bool) (p : Nat) (e : Entry) (q : Queue) : Option Queue :=
  if q.queueLength ≤ q.qlen ∨ q.queueSize < q.qbytes + .ofNat 64 e.len then
    some { q with queueDrops := q.queueDrops + 1 }
  else do
    let (heap, qhead) ← q.link p e
    some <| wakeUpdate fdOk { q with
      heap   := heap
      qhead  := qhead
      qtail  := some p
      qlen   := q.qlen + 1
      qbytes := q.qbytes + .ofNat 64 e.len }

def expired (queueTime : BitVec 64) (now : Int) (e : Entry) : Bool :=
  queueTime.toInt * 1000000 < now - e.addr.timestamp

-- The queue without its first entry.
def unlink (q : Queue) (p : Nat) (node : Node Entry) : Queue :=
  { q with
    heap   := q.heap.erase p
    qhead  := node.next
    qtail  := if node.next.isNone then none else q.qtail
    qlen   := q.qlen - 1
    qbytes := q.qbytes - .ofNat 64 node.data.len }

-- Every iteration frees an entry or hands it to the caller, so that the number of entries bounds
-- their number.
def popLoop (now : Int) (fuel : Nat) (q : Queue) : Option (Option Entry × Queue) :=
  match q.qhead, fuel with
  | none, _          => some (none, q)
  | some _, 0        => none
  | some p, fuel + 1 => do
    let node ← q.heap.lookup p
    if expired q.queueTime now node.data then
      popLoop now fuel { q.unlink p node with queueDrops := q.queueDrops + 1 }
    else some (some node.data, q.unlink p node)

def pop (fdOk : Bool) (now : Int) (q : Queue) : Option (Option Entry × Queue) := do
  let (e, q) ← popLoop now q.heap.entries.length q
  some (e, q.wakeUpdate fdOk)

end Queue

inductive Param
  | queueLength
  | queueTime
  | queueSize
  | versionMajor
  | versionMinor
  | unknown

namespace Queue

-- The value must lie within the bounds of the parameter.
def setParam (q : Queue) (param : Param) (value : BitVec 64) : Except Errno Queue :=
  match param with
  | .queueLength =>
    if value < queueLengthMin ∨ queueLengthMax < value then .error .inval
    else .ok { q with queueLength := value }
  | .queueTime =>
    if value < queueTimeMin ∨ queueTimeMax < value then .error .inval
    else .ok { q with queueTime := value }
  | .queueSize =>
    if value < queueSizeMin ∨ queueSizeMax < value then .error .inval
    else .ok { q with queueSize := value }
  | _ => .error .inval

-- The part of `ebpfdivert_shutdown` that concerns receiving.
def shutdownRecv (fdOk : Bool) (q : Queue) : Queue :=
  wakeUpdate fdOk { q with shutRecv := true }

end Queue

end Handle
