import EbpfDivert.Kernel.Match
import Mathlib.Algebra.Group.Nat.Defs

open Shared
open Flags (flagIf)

-- The packet programs: `process_packet` and the two hooks.
namespace Kernel

-- A packet in the kernel. The first `headLen` bytes can be read directly.
structure Skb where
  bytes          : Bytes
  headLen        : Nat
  head_le        : headLen ≤ bytes.length
  ifindex        : BitVec 32
  ingressIfindex : BitVec 32
  mark           : BitVec 32
  priority       : BitVec 32
  gsoSize        : BitVec 32
  gsoSegs        : BitVec 32

def Skb.len (skb : Skb) : Nat :=
  skb.bytes.length

structure FibLookup where
  ifindex    : BitVec 32
  l4Protocol : BitVec 8
  sport      : BitVec 16
  dport      : BitVec 16
  family     : BitVec 8
  src        : Bytes ⊕ BitVec 32
  dst        : Bytes ⊕ BitVec 32

-- What the helper functions of the kernel return during one run. The routing table answers with
-- the code of `bpf_fib_lookup`.
structure Env where
  now       : BitVec 64
  stamp     : BitVec 64
  pullOk    : Bool
  reserveOk : Bool
  fibLookup : FibLookup → Int

inductive Stat
  | diverted
  | dropped
  | sniffed
  | parsingErr
  | ringbufFull
  | tooBig
  | ownerGone
deriving DecidableEq

inductive TcAct
  | unspec
  | shot
  | stolen
deriving DecidableEq

-- The verdict, the record that was submitted and the counter that was incremented.
structure Outcome where
  act    : TcAct
  record : Option PacketBuffer
  stat   : Option Stat

def Outcome.pass (stat : Option Stat) : Outcome :=
  ⟨.unspec, none, stat⟩

-- Success, no neighbour and fragmentation needed all mean that the packet is forwarded.
def isForwarded (env : Env) (skb : Skb) (pkt : ParsedPacket) : Bool :=
  let params : FibLookup :=
    { ifindex    := skb.ifindex
      l4Protocol := pkt.proto
      sport      := pkt.srcPort
      dport      := pkt.dstPort
      family     := if pkt.ver = .v4 then 2 else 10
      src        := if pkt.ver = .v4 then .inr pkt.srcIp else .inl pkt.srcIp6
      dst        := if pkt.ver = .v4 then .inr pkt.dstIp else .inl pkt.dstIp6 }
  env.fibLookup params ∈ [0, 7, 8]

-- The size classes of the records.
def roomFor (len : Nat) : Nat :=
  if len ≤ 2048 then 2048 else if len ≤ 16384 then 16384 else divertMaxPacket

-- The length as the verifier is made to believe it: `((len - 1) & (SIZE - 1)) + 1`.
def clampLen (len size : Nat) : Nat :=
  (len + 2 ^ 64 - 1) % size + 1

def pktHeader (env : Env) (skb : Skb) (pkt : ParsedPacket) (direction : Dir) (flags : BitVec 16)
    (capLen : Nat) : PktHeader where
  pktLen         := skb.len
  ifindex        := skb.ifindex
  direction      := direction
  l2Len          := pkt.l2Len
  capLen         := capLen
  timestamp      := env.stamp
  ingressIfindex := skb.ingressIfindex
  gsoSize        := skb.gsoSize.setWidth 16
  gsoSegs        := skb.gsoSegs.setWidth 16
  flags          := flags

def emitPacket (env : Env) (skb : Skb) (pkt : ParsedPacket) (direction : Dir) (flags : BitVec 16)
    (len : Nat) : Except Stat PacketBuffer :=
  let n := clampLen len (roomFor len)
  if !env.reserveOk then .error .ringbufFull
  else if skb.len < n then .error .parsingErr
  else .ok
    { header := pktHeader env skb pkt direction flags n
      data   := skb.bytes.take n
      room   := roomFor len }

def upperHalf (mark : BitVec 32) : BitVec 32 :=
  mark &&& 0xFFFF0000

-- Handles with the same or a higher priority than the injector ignore the packet, the others see it
-- as an impostor. None if the packet is let through.
def checkMark (cfg : DivertConfig) (mark : BitVec 32) : Option (BitVec 16) :=
  let prevent := if cfg.loopPreventionMark ≠ 0 then cfg.loopPreventionMark else loopPreventionMark
  let injected := upperHalf mark = upperHalf prevent
  if injected ∧ cfg.priority ≤ mark &&& 0xFFFF then none
  else if upperHalf mark = redirectMarkMask then none
  else some (flagIf injected pktImpostor)

def isLo (cfg : DivertConfig) (skb : Skb) : Bool :=
  skb.ifindex = cfg.loIfindex

-- Leaving an interface after it came in through another.
def forwarded (cfg : DivertConfig) (skb : Skb) : Bool :=
  !isLo cfg skb && skb.ingressIfindex != 0

-- Loopback traffic is only reported on its way out, and every layer has its own packets.
def checkPlace (cfg : DivertConfig) (skb : Skb) (direction : Dir) : Option (BitVec 16) :=
  let lo := isLo cfg skb
  if lo ∧ direction = .inbound then none
  else if lo ∧ Flags.has cfg.flags cfgSkipLo then none
  else if direction = .inbound ∧ Flags.has cfg.flags cfgNoInbound then none
  else if direction = .outbound ∧ Flags.has cfg.flags cfgNoOutbound then none
  else
    let forwardLayer := Flags.has cfg.flags cfgForward
    match direction with
    | .outbound =>
      if forwarded cfg skb ≠ forwardLayer then none
      else some (flagIf lo pktLoopback ||| flagIf (forwarded cfg skb) pktForward)
    | .inbound => if forwardLayer then none else some (flagIf lo pktLoopback)

-- The owner has stopped refreshing its heartbeat.
def ownerGone (cfg : DivertConfig) (now : BitVec 64) : Bool :=
  cfg.heartbeatTimeoutNs ≠ 0 ∧ now - cfg.heartbeatNs > cfg.heartbeatTimeoutNs

-- At least the first 128 bytes can be read once they have been pulled.
def Skb.pulled (skb : Skb) : Bytes :=
  skb.bytes.take (max skb.headLen (min skb.len 128))

-- What becomes of a packet that a rule with the mask `mm` matches.
def act (env : Env) (cfg : DivertConfig) (skb : Skb) (pkt : ParsedPacket) (direction : Dir)
    (flags mm : BitVec 16) : Outcome :=
  if Flags.has mm matchDrop then ⟨.shot, none, some .dropped⟩
  else
    let sniff := Flags.has mm matchSniff
    let snap := min (if cfg.snaplen ≠ 0 then cfg.snaplen.toNat else divertMaxPacket) divertMaxPacket
    -- A diverted packet must be copied whole or it cannot be re-injected.
    if snap < skb.len ∧ !sniff then .pass (some .tooBig)
    else match emitPacket env skb pkt direction (flags ||| flagIf sniff pktSniffed)
        (min skb.len snap) with
      | .error stat => .pass (some stat)
      | .ok record  =>
        if sniff then ⟨.unspec, some record, some .sniffed⟩
        else ⟨.stolen, some record, some .diverted⟩

-- Inbound fragments are only captured on request, and packets that are going to be forwarded not at
-- all.
def skipped (env : Env) (cfg : DivertConfig) (skb : Skb) (direction : Dir) (pkt : ParsedPacket) :
    Bool :=
  direction = .inbound ∧ (pkt.fragment ∧ !Flags.has cfg.flags cfgFragments ∨
    Flags.has cfg.flags cfgFwdCheck ∧ isForwarded env skb pkt)

-- The part of `process_packet` that looks into the packet.
def inspect (env : Env) (cfg : DivertConfig) (t : Tables) (skb : Skb) (direction : Dir)
    (flags : BitVec 16) (pkt : ParsedPacket) : Outcome :=
  if skipped env cfg skb direction pkt then .pass none
  else match select t pkt direction with
    | none    => .pass none
    | some mm => act env cfg skb pkt direction (flags ||| flagIf pkt.fragment pktFragment) mm

def processPacket (env : Env) (cfg : DivertConfig) (t : Tables) (skb : Skb) (direction : Dir) :
    Outcome :=
  if Flags.has cfg.flags cfgShutdown then .pass none
  else if ownerGone cfg env.now then .pass (some .ownerGone)
  else match checkMark cfg skb.mark, checkPlace cfg skb direction with
    | some mark, some place =>
      if !env.pullOk then .pass (some .parsingErr)
      else match parsePacket skb.pulled with
        | none     => .pass none
        | some pkt =>
          inspect env cfg t skb direction (mark ||| place) { pkt with isLo := isLo cfg skb }
    | _, _ => .pass none

-- The verdict of a hook: an injected packet on its way to another interface is redirected there.
inductive Verdict
  | done (out : Outcome)
  | redirect (ifindex : BitVec 32)

-- The packet may be changed for the programs that run after this one.
def tcDivertIngress (env : Env) (cfg : DivertConfig) (t : Tables) (skb : Skb) : Verdict × Skb :=
  if upperHalf skb.mark = redirectMarkMask then
    -- The redirect clears the priority, so the injector's is moved into the mark first.
    let prio := if upperHalf skb.priority = redirectPrioMagic then skb.priority &&& 0xFFFF else 0
    (.redirect (skb.mark &&& 0xFFFF), { skb with mark := redirectedMark ||| prio, priority := 0 })
  else
    let skb := if upperHalf skb.mark = redirectedMark then
        { skb with mark := loopPreventionMark ||| (skb.mark &&& 0xFFFF) }
      else skb
    (.done (processPacket env cfg t skb .inbound), skb)

def tcDivertEgress (env : Env) (cfg : DivertConfig) (t : Tables) (skb : Skb) : Verdict × Skb :=
  (.done (processPacket env cfg t skb .outbound), skb)

end Kernel
