import EbpfDivert.Handle.Basic

open Shared

-- How a handle sends packets.
namespace Handle

inductive Errno
  | inval
  | nomem
  | sys

structure Frame where
  ifindex  : BitVec 32
  mark     : BitVec 32
  priority : BitVec 32
  l2       : Bytes
  pkt      : Bytes
  gsoSize  : BitVec 16

-- What has been handed to the kernel: a frame for an interface or an IP packet to be routed.
inductive Sent
  | frame (f : Frame)
  | raw (mark : BitVec 32) (pkt : Bytes)

-- The IP packet.
def Sent.pkt : Sent → Bytes
  | .frame f   => f.pkt
  | .raw _ pkt => pkt

def prevent (h : Handle) : BitVec 32 :=
  loopPreventionMark ||| (h.tcPrio &&& 0xFFFF)

-- The socket that sends with the given mark, created on first use.
def packetSock (env : Env) (h : Handle) (mark : BitVec 32) (redirect : Bool) :
    Except Errno (InjectSock × Handle) :=
  match h.socks.find? (·.mark = mark) with
  | some sock => .ok (sock, h)
  | none      =>
    if !env.sockOk then .error .sys
    else
      let priority := if redirect then redirectPrioMagic ||| (h.tcPrio &&& 0xFFFF) else 0
      .ok (⟨mark, priority⟩, { h with socks := h.socks ++ [⟨mark, priority⟩] })

-- The header for segmentation offload comes in front of the frame afterwards.
def sendAfPacket (env : Env) (h : Handle) (ifindex mark : BitVec 32) (redirect : Bool)
    (l2 pkt : Bytes) (gsoSize : BitVec 16) : Except Errno Sent × Handle :=
  if !env.allocOk then (.error .nomem, h)
  else match packetSock env h mark redirect with
    | .error e       => (.error e, h)
    | .ok (sock, h') =>
      if !env.sendOk then (.error .sys, h')
      else (.ok <| .frame ⟨ifindex, sock.mark, sock.priority, l2, pkt, gsoSize⟩, h')

def sendRawIp (env : Env) (h : Handle) (pkt : Bytes) : Except Errno Sent × Handle :=
  if !env.sockOk || !env.sendOk then (.error .sys, h) else (.ok <| .raw h.prevent pkt, h)

-- A MAC header for `lo` with the address of the target.
def ethHeader (env : Env) (ifindex : BitVec 32) (v6 : Bool) : Bytes :=
  (env.hwaddr ifindex).getD (.replicate 6 0) ++ .replicate 6 0 ++
    if v6 then [0x86, 0xDD] else [0x08, 0x00]

-- The checksums that need not be calculated again, as flags of `WinDivertHelperCalcChecksums`.
def keepChecksums (addr : Address) : BitVec 64 :=
  Flags.flagIf addr.ipChecksum 1 ||| Flags.flagIf addr.tcpChecksum 8 |||
    Flags.flagIf addr.udpChecksum 16

-- The four ways a packet can take.
def route (env : Env) (h : Handle) (pkt : Bytes) (addr : Address) : Except Errno Sent × Handle :=
  let ifindex := addr.network.ifIdx
  if addr.loopback ∨ (ifindex = h.loIfindex ∧ 0 < ifindex.toInt) then sendRawIp env h pkt
  else if addr.outbound ∨ addr.layer = .networkForward then
    match addr.stash with
    | some stash =>
      if 0 < ifindex.toInt then
        sendAfPacket env h ifindex h.prevent false stash.data pkt stash.gsoSize
      else sendRawIp env h pkt
    | none => sendRawIp env h pkt
  else if ifindex.toInt ≤ 0 then sendRawIp env h pkt
  else
    -- Inbound: the hook of `lo` redirects it to its target.
    let l2 := match addr.stash with
      | some stash => if stash.data.length = 14 then stash.data
        else ethHeader env ifindex (pkt.byte 0 >>> 4 = 6)
      | none       => ethHeader env ifindex (pkt.byte 0 >>> 4 = 6)
    sendAfPacket env h h.loIfindex (redirectMarkMask ||| (ifindex &&& 0xFFFF)) true l2 pkt
      (addr.stash.elim 0 (·.gsoSize))

def inject (env : Env) (h : Handle) (pkt : Bytes) (addr : Address) (fixChecksums : Bool) :
    Except Errno Sent × Handle :=
  if pkt.length < 20 ∨ (pkt.byte 0 >>> 4 ≠ 4 ∧ pkt.byte 0 >>> 4 ≠ 6) then (.error .inval, h)
  else if !env.allocOk then (.error .nomem, h)
  else
    route env h (if fixChecksums then env.calcChecksums pkt (keepChecksums addr) else pkt) addr

end Handle
