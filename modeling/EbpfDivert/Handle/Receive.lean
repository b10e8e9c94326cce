import EbpfDivert.Handle.Inject

open Shared

-- How a handle receives packets.
namespace Handle

structure QEntry where
  addr : Address
  data : Bytes

-- The address of a captured packet.
def recordAddress (env : Env) (h : Handle) (hdr : PktHeader) (frame : Bytes) : Address :=
  let pkt : Bytes := frame.drop hdr.l2Len
  let sums := env.verifyChecksums pkt
  { timestamp   := hdr.timestamp.toInt
    layer       := h.layer
    event       := 0
    sniffed     := Flags.has hdr.flags pktSniffed
    outbound    := hdr.direction = .outbound
    loopback    := Flags.has hdr.flags pktLoopback
    impostor    := Flags.has hdr.flags pktImpostor
    ipv6        := 0 < pkt.length ∧ pkt.byte 0 >>> 4 = 6
    ipChecksum  := sums.ip
    tcpChecksum := sums.tcp
    udpChecksum := sums.udp
    network     := ⟨hdr.ifindex, 0⟩
    flow        := ⟨0, 0, 0, .zero, .zero, 0, 0, 0⟩
    socket      := ⟨0, 0, 0, .zero, .zero, 0, 0, 0⟩
    reflect     := ⟨0, 0, .network, 0, 0⟩
    stash       := stashL2 (frame.take hdr.l2Len) hdr.gsoSize }

-- What the handle does with a record of the ring.
inductive Received
  | ignored
  | discarded
  | injected (res : Except Errno Sent)
  | queued (e : QEntry)

def ringCallback (env : Env) (h : Handle) (r : PacketBuffer) : Received × Handle :=
  let hdr := r.header
  let frame := r.data.take hdr.capLen
  if r.room < hdr.capLen ∨ hdr.capLen < hdr.l2Len ∨ !env.allocOk then (.ignored, h)
  else
    let e : QEntry := ⟨recordAddress env h hdr frame, frame.drop hdr.l2Len⟩
    -- Exact evaluation when the kernel rules are only a superset.
    if !h.exact || Flags.has hdr.flags pktFragment then
      match Wd.filterEval h.filter env.hash e.data e.addr.toAddress with
      | some true =>
        if Flags.has h.flags flagDrop then (.discarded, h) else (.queued e, h)
      | _         =>
        if Flags.has hdr.flags pktSniffed then (.discarded, h)
        else
          let (res, h') := inject env h e.data e.addr true
          (.injected res, h')
    else (.queued e, h)

end Handle
