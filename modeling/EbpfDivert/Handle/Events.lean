import EbpfDivert.Wd.Execute
import EbpfDivert.Shared

open Shared

-- What a handle does with the events of the flow and socket layers.
namespace Handle

-- Words in host order from 16 bytes in network order.
def wordsFromNet (b : Bytes) : Words :=
  .of (b.be32 12) (b.be32 8) (b.be32 4) (b.be32 0)

theorem testBit_wordsFromNet {b : Bytes} {k : Nat} (hk : k < 128) :
    (wordsFromNet b).value.testBit k = (b.byte (15 - k / 8)).getLsbD (k % 8) := by
  have hw : (wordsFromNet b).word (k / 32) = b.be32 (12 - 4 * (k / 32)) := by
    have : k / 32 < 4 := by omega
    interval_cases k / 32 <;> rfl
  rw [Words.testBit_value, hw, Bytes.getLsbD_be32 (by omega), show k % 32 % 8 = k % 8 by omega,
    show 12 - 4 * (k / 32) + (3 - k % 32 / 8) = 15 - k / 8 by omega]

def addrIsLoopback (a : Bytes) : Bool :=
  if a.byte 10 = 0xFF ∧ a.byte 11 = 0xFF ∧ a.byte 0 = 0 ∧ a.byte 8 = 0 ∧ a.byte 9 = 0 then
    a.byte 12 = 127
  else
    (List.range 16).map a.byte = .replicate 15 0 ++ [1]

-- The address of an event. Flow and socket data share the same layout.
def eventAddress (layer : Wd.Layer) (sniff : Bool) (ev : DivertEvent) (event : BitVec 8) : Wd.Address :=
  let d : Wd.DataFlow :=
    { endpointId       := ev.endpointId
      parentEndpointId := ev.parentEndpointId
      processId        := ev.pid
      localAddr        := wordsFromNet ev.localAddr
      remoteAddr       := wordsFromNet ev.remoteAddr
      localPort        := ev.localPort
      remotePort       := ev.remotePort
      protocol         := ev.protocol }
  { timestamp   := ev.timestamp.toInt
    layer       := layer
    event       := event
    sniffed     := sniff
    outbound    := false
    loopback    := addrIsLoopback ev.localAddr || addrIsLoopback ev.remoteAddr
    impostor    := false
    ipv6        := ev.family = 6
    ipChecksum  := false
    tcpChecksum := false
    udpChecksum := false
    network     := ⟨0, 0⟩
    flow        := d
    socket      := d
    reflect     := ⟨0, 0, .network, 0, 0⟩ }

-- The table of the event programs after the rules have been stored: the other entries are zero.
def eventTable (rules : List EventRule) : List EventRule :=
  rules ++ .replicate (eventRulesMax - rules.length) .zero

end Handle
