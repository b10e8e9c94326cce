import EbpfDivert.Prefilter.Walk
import EbpfDivert.Prefilter.Encode

open Wd (Insn)
open Shared
open Flags (flagIf)

namespace Prefilter

-- One bit for every event in the range.
def eventBits (r : PfRange) : BitVec 16 :=
  (List.range 16).foldl (fun m i => if r.contains i then m ||| Flags.bit 16 i else m) 0

-- A rule of the socket layer and whether it says exactly what the cube says.
def emitEventRule (c : Cube) : EventRule × Bool :=
  let hasEvent := !c.event.data.isFull 15
  let proto := (encodeRange32 c.proto.data 255).point
  let lport := encodeRange32 c.sport.data 65535
  let rport := encodeRange32 c.dport.data 65535
  let pid   := encodeRange32 c.pid.data 0xFFFFFFFF
  let laddr := encodeAddr c.src
  let raddr := encodeAddr c.dst
  let rule : EventRule :=
    { matchMask  := evmEnabled ||| flagIf hasEvent evmEvent ||| flagIf c.ver.isSome evmFamily |||
        flagIf proto.active evmProto ||| flagIf lport.active evmLport |||
        flagIf rport.active evmRport ||| flagIf pid.active evmPid |||
        flagIf laddr.active evmLaddr ||| flagIf raddr.active evmRaddr
      invertMask := flagIf proto.invert evmProto ||| flagIf lport.invert evmLport |||
        flagIf rport.invert evmRport ||| flagIf pid.invert evmPid |||
        flagIf laddr.invert evmLaddr ||| flagIf raddr.invert evmRaddr
      pidLo      := pid.first
      pidHi      := pid.last
      eventMask  := if hasEvent then eventBits c.event.data else 0
      lportLo    := lport.first.setWidth 16
      lportHi    := lport.last.setWidth 16
      rportLo    := rport.first.setWidth 16
      rportHi    := rport.last.setWidth 16
      proto      := proto.first.setWidth 8
      family     := c.ver.elim 0 IpVer.code
      loopback   := 0
      laddr      := if laddr.active then laddr.ip.toNet16 else .replicate 16 0
      lmask      := if laddr.active then laddr.mask.toNet16 else .replicate 16 0
      raddr      := if raddr.active then raddr.ip.toNet16 else .replicate 16 0
      rmask      := if raddr.active then raddr.mask.toNet16 else .replicate 16 0 }
  (rule, c.exact && proto.exact && lport.exact && rport.exact && pid.exact && laddr.exact &&
    raddr.exact)

-- The rules of a filter, at most `max` of them, and whether they are exact. Allocation is taken to
-- succeed.
def pfLowerEvents (f : Wd.Filter) (max : Nat) : List EventRule × Bool :=
  let ctx := pfWalkAll f.object true
  if ctx.overflow ∨ ctx.cubes.length > max then ([], false)
  else (ctx.cubes.map fun c => (emitEventRule c).1, ctx.cubes.all fun c => (emitEventRule c).2)

end Prefilter
