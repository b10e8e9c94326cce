import EbpfDivert.Wd.Execute
import EbpfDivert.Shared

open Shared
open Flags (flagIf)

abbrev Handle.flagSniff     := Flags.bit 64 0
abbrev Handle.flagDrop      := Flags.bit 64 1
abbrev Handle.flagRecvOnly  := Flags.bit 64 2
abbrev Handle.flagSendOnly  := Flags.bit 64 3
abbrev Handle.flagFragments := Flags.bit 64 5

-- The flags that `ebpfdivert_open` accepts on a layer.
def Handle.validFlags (layer : Wd.Layer) (flags : BitVec 64) : Bool :=
  let has := Flags.has flags
  !has (~~~0x3F) && !(has flagSniff && has flagDrop) && !(has flagRecvOnly && has flagSendOnly) &&
  !(layer ∈ [.flow, .reflect] && !(has flagSniff && has flagRecvOnly)) &&
  !(layer = .socket && !has flagRecvOnly)

-- A socket that sends with a fixed mark and priority.
structure Handle.InjectSock where
  mark     : BitVec 32
  priority : BitVec 32

-- An open handle.
structure Handle where
  layer        : Wd.Layer
  flags        : BitVec 64
  flags_valid  : Handle.validFlags layer flags
  tcPrio       : BitVec 32
  prio_le      : tcPrio ≤ 0xFFFF
  filter       : Wd.Filter
  filter_layer : filter.layer = layer
  exact        : Bool
  loIfindex    : BitVec 32
  socks        : List Handle.InjectSock

namespace Handle

def l2StashMax : Nat := 22

-- The link layer header and the segment size of a captured packet.
structure L2Stash where
  gsoSize : BitVec 16
  data    : Bytes
  len_le  : data.length ≤ l2StashMax

-- An address with what has been hidden in the unused part of its union.
structure Address extends Wd.Address where
  stash : Option L2Stash

def stashL2 (l2 : Bytes) (gsoSize : BitVec 16) : Option L2Stash :=
  if h : l2.length ≤ l2StashMax then some ⟨gsoSize, l2, h⟩ else none

structure Checksums where
  ip  : Bool
  tcp : Bool
  udp : Bool

-- What the handle learns from the system, the checksums of the packets included.
structure Env where
  allocOk         : Bool
  sockOk          : Bool
  sendOk          : Bool
  hwaddr          : BitVec 32 → Option Bytes
  hash            : BitVec 64
  verifyChecksums : Bytes → Checksums
  calcChecksums   : Bytes → BitVec 64 → Bytes

-- What the configuration depends on besides the handle: the sysctls for forwarding, the directions
-- in which the filter can match, whether `lo` was selected, a shutdown and the clock.
structure ConfigEnv where
  forwarding  : Bool
  filterFlags : BitVec 64
  loSelected  : Bool
  shutRecv    : Bool
  now         : BitVec 64

def heartbeatTimeoutNs : BitVec 64 := 3000000000

abbrev filterInbound  := Flags.bit 64 4
abbrev filterOutbound := Flags.bit 64 5

-- The configuration that `open_network` and the heartbeat write for the packet programs.
def config (h : Handle) (env : ConfigEnv) : DivertConfig where
  priority           := h.tcPrio
  snaplen            := .ofNat 32 divertMaxPacket
  loopPreventionMark := loopPreventionMark
  loIfindex          := h.loIfindex
  flags              := flagIf (Flags.has h.flags flagFragments) cfgFragments |||
    flagIf (h.layer = .networkForward) cfgForward ||| flagIf env.forwarding cfgFwdCheck |||
    flagIf (!Flags.has env.filterFlags filterInbound) cfgNoInbound |||
    flagIf (!Flags.has env.filterFlags filterOutbound) cfgNoOutbound |||
    flagIf (!env.loSelected) cfgSkipLo ||| flagIf env.shutRecv cfgShutdown
  heartbeatNs        := env.now
  heartbeatTimeoutNs := heartbeatTimeoutNs

end Handle
