import EbpfDivert.Shared

open Shared

-- The programs of the socket layer that decide whether an operation is refused.
namespace Kernel

-- 127/8 (as `::ffff:127.x.y.z`) or `::1`.
def isLoopback (a : Bytes) : Bool :=
  if a.be64 0 = 0 ∧ a.byte 8 = 0 ∧ a.byte 9 = 0 ∧ a.byte 10 = 0xFF ∧ a.byte 11 = 0xFF then
    a.byte 12 = 127
  else
    a.be64 0 = 0 ∧ a.be64 8 = 1

-- Both halves are compared as words. In which order their bytes are read makes no difference.
def addrMatch (a ip mask : Bytes) : Bool :=
  (a.be64 0 ^^^ ip.be64 0) &&& mask.be64 0 == 0#64 && (a.be64 8 ^^^ ip.be64 8) &&& mask.be64 8 == 0#64

def ruleMatch (r : EventRule) (e : DivertEvent) : Bool :=
  let clause := Flags.clause r.matchMask r.invertMask
  Flags.has r.matchMask evmEnabled &&
  !(Flags.has r.matchMask evmEvent && !Flags.has (r.eventMask.setWidth 32) (1#32 <<< e.event.toNat)) &&
  !(Flags.has r.matchMask evmFamily && e.family != r.family) &&
  clause evmProto (e.protocol == r.proto) &&
  clause evmLport (r.lportLo ≤ e.localPort ∧ e.localPort ≤ r.lportHi) &&
  clause evmRport (r.rportLo ≤ e.remotePort ∧ e.remotePort ≤ r.rportHi) &&
  clause evmPid (r.pidLo ≤ e.pid ∧ e.pid ≤ r.pidHi) &&
  clause evmLaddr (addrMatch e.localAddr r.laddr r.lmask) &&
  clause evmRaddr (addrMatch e.remoteAddr r.raddr r.rmask) &&
  !(Flags.has r.matchMask evmLoopback &&
    (if isLoopback e.remoteAddr || isLoopback e.localAddr then 1 else 0) != r.loopback)

-- The first entry that is not enabled ends the table.
def scanRules (e : DivertEvent) : List EventRule → Bool
  | []      => false
  | r :: rs =>
    if !Flags.has r.matchMask evmEnabled then false
    else if ruleMatch r e then true
    else scanRules e rs

def shouldBlock (cfg : EventConfig) (table : List EventRule) (e : DivertEvent) : Bool :=
  Flags.has cfg.flags evcfgBlock && scanRules e (table.take eventRulesMax)

end Kernel
