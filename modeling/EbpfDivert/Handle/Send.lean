import EbpfDivert.Handle.Recv
import EbpfDivert.Wd.Checksum

open Shared

-- The result of `wd_parse_packet`, with the offsets of the headers that there are.
structure Wd.WdPacketInfo where
  ipv6         : Bool
  fragment     : Bool
  protocol     : BitVec 8
  ipOff        : Option Nat
  transportOff : Option Nat
  payloadOff   : Option Nat
  payloadLen   : Nat

def Wd.parsePacket (packet : Bytes) : Option WdPacketInfo := do
  let l ← locate packet
  let info := l.info packet
  some
    { ipv6         := info.ipv6Header.isSome
      fragment     := info.fragment
      protocol     := info.protocol
      ipOff        := if info.ipHeader.isSome || info.ipv6Header.isSome then some 0 else none
      transportOff :=
        if info.tcpHeader.isSome || info.udpHeader.isSome || info.icmpHeader.isSome ||
          info.icmpv6Header.isSome then some (l.off packet) else none
      payloadOff   := if info.payloadLength = 0 then none else some info.headerLength
      payloadLen   := info.payloadLength }

namespace Handle

section Gso

-- What the kernel is told about the segmentation of a frame.
structure VirtioNetHdr where
  flags      : BitVec 8 := 0
  gsoType    : BitVec 8 := 0
  hdrLen     : BitVec 16 := 0
  gsoSize    : BitVec 16 := 0
  csumStart  : BitVec 16 := 0
  csumOffset : BitVec 16 := 0

def virtioNeedsCsum : BitVec 8 := 1
def virtioGsoTcpv4  : BitVec 8 := 1
def virtioGsoTcpv6  : BitVec 8 := 4
def virtioGsoUdpL4  : BitVec 8 := 5

theorem csumFold32_lt {sum : BitVec 32} (h : ¬sum >>> 16 = 0) :
    ((sum &&& 0xFFFF#32) + (sum >>> 16)).toNat < sum.toNat := by
  have hl : (sum &&& 0xFFFF#32).toNat = sum.toNat % 2 ^ 16 := by
    rw [BitVec.toNat_and]
    exact Nat.and_two_pow_sub_one_eq_mod sum.toNat 16
  have hh : (sum >>> 16).toNat = sum.toNat / 2 ^ 16 := by
    rw [BitVec.toNat_ushiftRight, Nat.shiftRight_eq_div_pow]
  have hn : (sum >>> 16).toNat ≠ 0 := fun hn => h (BitVec.eq_of_toNat_eq hn)
  have hs := sum.isLt
  rw [hh] at hn
  rw [BitVec.toNat_add, hl, hh, Nat.mod_eq_of_lt (by omega)]
  omega

def csumFold32 (sum : BitVec 32) : BitVec 16 :=
  if sum >>> 16 = 0 then sum.setWidth 16 else csumFold32 ((sum &&& 0xFFFF#32) + (sum >>> 16))
termination_by sum.toNat
decreasing_by exact csumFold32_lt ‹_›

-- The sum of the words in network byte order.
def csumAdd (sum : BitVec 32) : Bytes → BitVec 32
  | hi :: lo :: rest => csumAdd (sum + (hi ++ lo).setWidth 32) rest
  | [last]           => sum + (last ++ 0#8).setWidth 32
  | []               => sum

-- The sum over the pseudo header, not complemented.
def pseudoSum (packet : Bytes) (info : Wd.WdPacketInfo) (l4Len : Nat) : BitVec 16 :=
  let sum := if info.ipv6 then
      csumAdd (csumAdd (csumAdd 0 (packet.slice 8 32)) (Bytes.enc 4 l4Len).reverse)
        [0, 0, 0, info.protocol]
    else
      csumAdd (csumAdd 0 (packet.slice 12 8)) ([0, info.protocol] ++ (Bytes.enc 2 l4Len).reverse)
  csumFold32 sum

-- Large packets are handed to the kernel with the sum over the pseudo header as their checksum. The
-- result is missing for packets that cannot be segmented.
def prepareGso (packet : Bytes) (l2Len : Nat) (mtu gsoSize : BitVec 16) :
    Option (VirtioNetHdr × Bytes) := do
  let info ← Wd.parsePacket packet
  let transportOff ← info.transportOff
  if info.fragment then none
  else if info.protocol ≠ Wd.ipprotoTcp ∧ info.protocol ≠ Wd.ipprotoUdp then none
  else
    let hdrLen := l2Len + info.payloadOff.getD transportOff
    let csumOff := if info.protocol = Wd.ipprotoTcp then 16 else 6
    let sum := pseudoSum packet info (packet.length - transportOff)
    let vh : VirtioNetHdr :=
      { flags      := virtioNeedsCsum
        gsoType    :=
          if info.protocol = Wd.ipprotoTcp then
            if info.ipv6 then virtioGsoTcpv6 else virtioGsoTcpv4
          else virtioGsoUdpL4
        hdrLen     := .ofNat 16 hdrLen
        gsoSize    := if gsoSize = 0 then mtu - .ofNat 16 (hdrLen - l2Len) else gsoSize
        csumStart  := .ofNat 16 (l2Len + transportOff)
        csumOffset := .ofNat 16 csumOff }
    some (vh, packet.store (transportOff + csumOff) (Bytes.enc 2 sum.toNat).reverse)

-- The header and the frame as `send_af_packet` writes them to the socket.
def Frame.wire (f : Frame) (mtu : BitVec 32) : VirtioNetHdr × Bytes :=
  let large := 576 < f.pkt.length ∧ mtu.toNat < f.pkt.length
  match if large then prepareGso f.pkt f.l2.length (mtu.setWidth 16) f.gsoSize else none with
  | some (vh, packet) => (vh, f.l2 ++ packet)
  | none              => ({}, f.l2 ++ f.pkt)

end Gso

inductive SendError
  | errno (e : Errno)
  | perm
  | shutdown
  | msgsize

def mtuMax : Nat := 40 + 0xFFFF

-- What a single send meets: the system, and whether sending has been shut down.
structure SendEnv where
  env      : Env
  shutSend : Bool

def send (se : SendEnv) (h : Handle) (pkt : Bytes) (addr : Address) :
    Except SendError Sent × Handle :=
  if Flags.has h.flags flagRecvOnly then (.error .perm, h)
  else if h.layer ≠ .network ∧ h.layer ≠ .networkForward then (.error (.errno .inval), h)
  else if se.shutSend then (.error .shutdown, h)
  else if mtuMax < pkt.length then (.error .msgsize, h)
  else
    let (res, h') := inject se.env h pkt addr true
    (res.mapError .errno, h')

-- A call of `ebpfdivert_send_impl` with what came of it.
structure Attempt where
  pkt  : Bytes
  addr : Address
  res  : Except SendError Sent

-- Where the loop of `ebpfdivert_send_ex_impl` is.
structure Sending where
  i        : Nat
  off      : Nat
  sent     : Nat
  attempts : List Attempt
  handle   : Handle

-- The value at `send_len` after the call is the old one unless it is written.
structure SendOut where
  ret      : Option SendError
  sendLen  : Nat
  attempts : List Attempt
  handle   : Handle

-- The end of the call behind the loop.
def Sending.finish (s : Sending) (ret : Option SendError) : SendOut :=
  ⟨if s.sent = 0 then ret else none, s.sent, s.attempts, s.handle⟩

-- The end of the call inside the loop.
def Sending.leave (s : Sending) (ret : Option SendError) (sendLen : Nat) : SendOut :=
  ⟨ret, sendLen, s.attempts, s.handle⟩

-- The length of a packet according to its IP header.
def totalLength (packet : Bytes) (info : Wd.WdPacketInfo) : Nat :=
  if info.ipv6 then 40 + (packet.be16 4).toNat else (packet.be16 2).toNat

-- The result is missing if bytes behind the end of the buffer are sent: the check of the length
-- wraps around.
def sendLoop (envs : Nat → SendEnv) (pkt : Buffer) (sendLen : Nat) :
    List Address → Sending → Option SendOut
  | [], s            => some (s.finish none)
  | addr :: addrs, s =>
    let rest := pkt.bytes.drop s.off
    if pkt.len ≤ s.off then some (s.finish none)
    else match Wd.parsePacket rest with
      | none      => some (s.leave (if s.i = 0 then some (.errno .inval) else none) sendLen)
      | some info =>
        let plen := totalLength rest info
        if plen = 0 ∨ pkt.len < (s.off + plen) % 2 ^ 32 then
          some (s.leave (some (.errno .inval)) sendLen)
        else if pkt.len < s.off + plen then none
        else
          let (res, h) := send (envs s.i) s.handle (rest.take plen) addr
          let attempts := s.attempts ++ [⟨rest.take plen, addr, res⟩]
          match res with
          | .error e => some (Sending.finish ⟨s.i, s.off, s.sent, attempts, h⟩ (some e))
          | .ok _    =>
            sendLoop envs pkt sendLen addrs ⟨s.i + 1, s.off + plen, s.sent + plen, attempts, h⟩

-- The environment of every iteration is given.
def sendEx (envs : Nat → SendEnv) (h : Handle) (pkt : Buffer) (sendLen : Nat)
    (addrs : List Address) : Option SendOut :=
  sendLoop envs pkt sendLen addrs ⟨0, 0, 0, [], h⟩

end Handle
