import EbpfDivert.Kernel.Sockets
import EbpfDivert.Wd.Packet

open Shared

-- The programs that see the UDP packets of sockets.
namespace Kernel

def eventFlowEstablished : BitVec 8 := 1

-- The socket of a packet. Requests and closed connections have no full socket.
structure SkbSock where
  full     : Bool
  protocol : BitVec 32
  info     : Option SkInfo

-- The packet starts with its IP header.
structure CgroupSkb where
  data : Bytes
  sk   : Option SkbSock

-- UDP flows that have been reported as established.
structure UdpFlowKey where
  cookie     : BitVec 64
  remoteAddr : Bytes
  remotePort : BitVec 16
  localPort  : BitVec 16
deriving DecidableEq

-- The part of an event that is read from the packet.
structure Endpoints where
  family     : BitVec 8
  localAddr  : Bytes
  remoteAddr : Bytes
  localPort  : BitVec 16
  remotePort : BitVec 16

-- The family, the addresses and the offset of the ports.
def udpHeader (data : Bytes) : Option (BitVec 8 × Bytes × Bytes × Nat) :=
  if data.length < 1 then none
  else
    let ver := data.byte 0 >>> 4
    if ver = 4 then
      if data.length < 20 ∨ data.byte 9 ≠ Wd.ipprotoUdp ∨ data.be16 6 &&& 0x1FFF ≠ 0 then none
      else some (4, v4Mapped ((data.drop 12).take 4), v4Mapped ((data.drop 16).take 4),
        (data.byte 0 &&& 0x0F).toNat * 4)
    else if ver = 6 then
      if data.length < 40 ∨ data.byte 6 ≠ Wd.ipprotoUdp then none
      else some (6, (data.drop 8).take 16, (data.drop 24).take 16, 40)
    else none

def udpEndpoints (data : Bytes) (egress : Bool) : Option Endpoints := do
  let (family, src, dst, thoff) ← udpHeader data
  let off := thoff &&& 0xFF
  if data.length < off + 4 then none
  else
    some
      { family     := family
        localAddr  := if egress then src else dst
        remoteAddr := if egress then dst else src
        localPort  := data.be16 (if egress then off else off + 2)
        remotePort := data.be16 (if egress then off + 2 else off) }

-- A new entry may displace others.
def updateFlows (evicted : List UdpFlowKey) (key : UdpFlowKey) (flows : List UdpFlowKey) :
    List UdpFlowKey :=
  key :: flows.filter (· ∉ evicted)

-- The event that was submitted, the map and the storage of the socket afterwards. Packets always pass.
structure FlowOutcome where
  event   : Option DivertEvent
  flows   : List UdpFlowKey
  storage : Storage

def skPid (info : Option SkInfo) : BitVec 32 :=
  info.elim 0 (·.pid)

-- A packet of a UDP socket.
def reportFlow (env : SockEnv) (evicted : List UdpFlowKey) (info : Option SkInfo) (ends : Endpoints)
    (flows : List UdpFlowKey) : FlowOutcome :=
  let key : UdpFlowKey := ⟨env.cookie, ends.remoteAddr, ends.remotePort, ends.localPort⟩
  if key ∈ flows then ⟨none, flows, .sock info⟩
  else
    let e : DivertEvent :=
      { timestamp        := env.stamp
        endpointId       := env.cookie
        parentEndpointId := 0
        pid              := skPid info
        event            := eventFlowEstablished
        protocol         := Wd.ipprotoUdp
        family           := ends.family
        flags            := 0
        localPort        := ends.localPort
        remotePort       := ends.remotePort
        localAddr        := ends.localAddr
        remoteAddr       := ends.remoteAddr }
    ⟨submit env e, updateFlows evicted key flows, remember env (.sock info) e⟩

def udpFlow (env : SockEnv) (evicted : List UdpFlowKey) (cfg : EventConfig) (skb : CgroupSkb)
    (egress : Bool) (flows : List UdpFlowKey) : FlowOutcome :=
  match liveConfig cfg env.now, skb.sk with
  | some cfg, some sk =>
    let ignore : FlowOutcome := ⟨none, flows, .sock sk.info⟩
    if Flags.has cfg.flags evcfgSocket then ignore
    else if !sk.full ∨ sk.protocol ≠ Wd.ipprotoUdp.setWidth 32 then ignore
    else
      match udpEndpoints skb.data egress with
      | some ends => reportFlow env evicted sk.info ends flows
      | none      => ignore
  | _, some sk => ⟨none, flows, .sock sk.info⟩
  | _, none    => ⟨none, flows, .noSock⟩

end Kernel
