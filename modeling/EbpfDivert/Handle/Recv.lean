import EbpfDivert.Handle.Queue
import Mathlib.Data.Stream.Defs

open Linked

-- The calls that return captured packets.
namespace Handle

inductive RecvError
  | inval
  | perm
  | again
  | shutdown
  | nobufs
  deriving DecidableEq

-- One round of a call that waits for packets: a reading of the clock, whether there was anything in
-- the ring, and what of it has been queued.
structure Round where
  now      : Int
  consumed : Bool
  arrived  : List Entry

-- An address that is not in use.
def alloc (heap : Heap Entry) : Nat :=
  heap.keys.foldr max 0 + 1

def consumeRing (fdOk : Bool) (arrived : List Entry) (q : Queue) : Option Queue :=
  arrived.foldlM (fun q e => q.push fdOk (alloc q.heap) e) q

-- Waiting ends with the last round.
def nextEntry (fdOk : Bool) : List Round → Queue → Option (Except RecvError Entry × Queue)
  | [], q         => some (.error .again, q)
  | w :: waits, q => do
    let (e, q) ← q.pop fdOk w.now
    match e with
    | some e => some (.ok e, q)
    | none   =>
      if q.shutRecv && !w.consumed then some (.error .shutdown, q)
      else do
        let q ← consumeRing fdOk w.arrived q
        nextEntry fdOk waits q

-- The memory of the caller for the packets.
structure Buffer where
  bytes  : Bytes
  len_lt : bytes.length < 2 ^ 32

def Buffer.len (buf : Buffer) : Nat := buf.bytes.length

-- Writing beyond the end of the buffer makes it longer.
def memcpy (dst : Bytes) (offset : Nat) (src : Bytes) : Bytes :=
  dst.take offset ++ src ++ dst.drop (offset + src.length)

structure Batch where
  -- What has been taken off the queue with the number of bytes used before.
  taken : List (Nat × Entry)
  buf   : Option Bytes
  addrs : List Address
  used  : Nat
  queue : Queue

def Batch.start (pkt : Option Buffer) (q : Queue) : Batch :=
  ⟨[], pkt.map (·.bytes), [], 0, q⟩

def Batch.copy (b : Batch) (e : Entry) (q : Queue) : Batch where
  taken := b.taken ++ [(b.used, e)]
  buf   := b.buf.map (memcpy · b.used e.data)
  addrs := b.addrs ++ [e.addr]
  used  := (b.used + e.len) % 2 ^ 32
  queue := q

-- The packets after the first one: only what is already there.
def recvLoop (fdOk : Bool) (pkt : Option Buffer) : Nat → Stream' Round → Batch → Option Batch
  | 0, _, b          => some b
  | n + 1, rounds, b => do
    let q ← consumeRing fdOk rounds.head.arrived b.queue
    match q.qhead with
    | none   => some { b with queue := q }
    | some p => do
      let node ← q.heap.lookup p
      if pkt.any (·.len < (b.used + node.data.len) % 2 ^ 32) then some { b with queue := q }
      else do
        let (e, q) ← q.pop fdOk rounds.head.now
        match e with
        | none   => some { b with queue := q }
        | some e => recvLoop fdOk pkt n rounds.tail (b.copy e q)

-- What `ebpfdivert_recv` returns: the error, if any, the length and the address where they have been
-- written, and the memory for the packet.
structure RecvOut where
  ret     : Option RecvError
  recvLen : Option Nat
  addr    : Option Address
  buf     : Option Bytes

def recv (fdOk : Bool) (flags : BitVec 64) (pkt : Option Buffer) (waits : List Round) (q : Queue) :
    Option (RecvOut × Queue) :=
  let buf := pkt.map (·.bytes)
  if Flags.has flags flagSendOnly then some (⟨some .perm, none, none, buf⟩, q)
  else do
    let (res, q) ← nextEntry fdOk waits q
    match res with
    | .error err => some (⟨some err, none, none, buf⟩, q)
    | .ok e      =>
      if pkt.any (·.len < e.len) then some (⟨some .nobufs, some e.len, some e.addr, buf⟩, q)
      else some (⟨none, some e.len, some e.addr, buf.map (memcpy · 0 e.data)⟩, q)

-- The error, if any, and what has been received.
def recvEx (fdOk : Bool) (flags : BitVec 64) (pkt : Option Buffer) (addrLen : BitVec 32)
    (waits : List Round) (rounds : Stream' Round) (q : Queue) : Option (Option RecvError × Batch) :=
  if addrLen = 0 then some (some .inval, .start pkt q)
  else if Flags.has flags flagSendOnly then some (some .perm, .start pkt q)
  else do
    let (res, q) ← nextEntry fdOk waits q
    match res with
    | .error err => some (some err, .start pkt q)
    | .ok e      =>
      if pkt.any (·.len < e.len) then
        some (some .nobufs, { Batch.start pkt q with taken := [(0, e)] })
      else do
        let b ← recvLoop fdOk pkt (addrLen.toNat - 1) rounds ((Batch.start pkt q).copy e q)
        some (none, b)

end Handle
