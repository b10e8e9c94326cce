import EbpfDivert.Handle.Basic
import EbpfDivert.Primitives.Memory

open Flags (flagIf)

-- The 80 bytes of an address, in the memory of a little-endian machine.
namespace Handle

def layerCode : Wd.Layer → BitVec 8
  | .network        => 0
  | .networkForward => 1
  | .flow           => 2
  | .socket         => 3
  | .reflect        => 4

def layerOf (code : BitVec 8) : Wd.Layer :=
  if code = 1 then .networkForward
  else if code = 2 then .flow
  else if code = 3 then .socket
  else if code = 4 then .reflect
  else .network

def l2StashMagic : BitVec 8 := 0xEB

def unionOffset   : Nat := 16
def l2StashOffset : Nat := 16

-- What `stash_l2` writes. The rest of the 22 bytes for the header stays as it is.
def L2Stash.encode (s : L2Stash) : Bytes :=
  [l2StashMagic, .ofNat 8 s.data.length] ++ .enc 2 s.gsoSize.toNat ++ s.data

def getStash (b : Bytes) : Option L2Stash :=
  let at_ := unionOffset + l2StashOffset
  if h : b.byte at_ ≠ l2StashMagic ∨ l2StashMax < (b.byte (at_ + 1)).toNat then none
  else some
    { gsoSize := .ofNat 16 (b.slice (at_ + 2) 2).dec
      data    := b.slice (at_ + 4) (b.byte (at_ + 1)).toNat
      len_le  := by
        rw [not_or, Nat.not_lt] at h
        exact Nat.le_trans (List.length_take_le ..) h.right }

namespace Address

-- The byte with the flags, from the lowest bit on.
def flagBits (addr : Address) : BitVec 8 :=
  flagIf addr.sniffed (Flags.bit 8 0) ||| flagIf addr.outbound (Flags.bit 8 1) |||
    flagIf addr.loopback (Flags.bit 8 2) ||| flagIf addr.impostor (Flags.bit 8 3) |||
    flagIf addr.ipv6 (Flags.bit 8 4) ||| flagIf addr.ipChecksum (Flags.bit 8 5) |||
    flagIf addr.tcpChecksum (Flags.bit 8 6) ||| flagIf addr.udpChecksum (Flags.bit 8 7)

-- Everything in front of the stash.
def encodeFixed (addr : Address) : Bytes :=
  let b : Bytes := .replicate 80 0
  let b := b.store 0 (.enc 8 (BitVec.ofInt 64 addr.timestamp).toNat)
  let b := b.store 8 [layerCode addr.layer, addr.event, addr.flagBits]
  let b := b.store unionOffset (.enc 4 addr.network.ifIdx.toNat)
  b.store (unionOffset + 4) (.enc 4 addr.network.subIfIdx.toNat)

-- The address of a packet as `ring_callback` writes it.
def encode (addr : Address) : Bytes :=
  match addr.stash with
  | none   => addr.encodeFixed
  | some s => addr.encodeFixed.store (unionOffset + l2StashOffset) s.encode

-- The address as it is read when a packet is sent, which looks at no other member of the union.
def decode (b : Bytes) : Address where
  timestamp   := (BitVec.ofNat 64 (b.slice 0 8).dec).toInt
  layer       := layerOf (b.byte 8)
  event       := b.byte 9
  sniffed     := Flags.has (b.byte 10) (Flags.bit 8 0)
  outbound    := Flags.has (b.byte 10) (Flags.bit 8 1)
  loopback    := Flags.has (b.byte 10) (Flags.bit 8 2)
  impostor    := Flags.has (b.byte 10) (Flags.bit 8 3)
  ipv6        := Flags.has (b.byte 10) (Flags.bit 8 4)
  ipChecksum  := Flags.has (b.byte 10) (Flags.bit 8 5)
  tcpChecksum := Flags.has (b.byte 10) (Flags.bit 8 6)
  udpChecksum := Flags.has (b.byte 10) (Flags.bit 8 7)
  network     := ⟨.ofNat 32 (b.slice unionOffset 4).dec, .ofNat 32 (b.slice (unionOffset + 4) 4).dec⟩
  flow        := ⟨0, 0, 0, .zero, .zero, 0, 0, 0⟩
  socket      := ⟨0, 0, 0, .zero, .zero, 0, 0, 0⟩
  reflect     := ⟨0, 0, .network, 0, 0⟩
  stash       := getStash b

end Address

end Handle
