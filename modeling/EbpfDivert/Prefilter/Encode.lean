import EbpfDivert.Prefilter.Cube
import EbpfDivert.Prefilter.Branch
import EbpfDivert.Shared

open Shared
open Words (cmp128)
open Flags (flagIf)

namespace Prefilter

-- A range as a rule expresses it: every value when inactive, `[first, last]` when active, its
-- complement when inverted. `exact` is false if the range had to be widened.
structure RangeCode (w : Nat) where
  first  : BitVec w := 0
  last   : BitVec w := 0
  active : Bool := false
  invert : Bool := false
  exact  : Bool := true

def encodeRange (r : PfRange) (max : Nat) : RangeCode 16 :=
  if r.isFull max then {}
  else match r.excl with
    | []        => { first := .ofNat 16 r.lo, last := .ofNat 16 r.hi, active := true }
    | x :: rest =>
      if rest = [] ∧ r.lo = 0 ∧ r.hi = max then
        { first := .ofNat 16 x, last := .ofNat 16 x, active := true, invert := true }
      else
        -- Keep the interval, drop the holes.
        { first := .ofNat 16 r.lo, last := .ofNat 16 r.hi
          active := r.lo ≠ 0 ∨ r.hi ≠ max, exact := false }

-- The same for 32-bit values, except that an interval with holes is always active.
def encodeRange32 (r : PfRange) (max : Nat) : RangeCode 32 :=
  if r.isFull max then {}
  else match r.excl with
    | []        => { first := .ofNat 32 r.lo, last := .ofNat 32 r.hi, active := true }
    | x :: rest =>
      if rest = [] ∧ r.lo = 0 ∧ r.hi = max then
        { first := .ofNat 32 x, last := .ofNat 32 x, active := true, invert := true }
      else
        { first := .ofNat 32 r.lo, last := .ofNat 32 r.hi, active := true, exact := false }

structure Cover where
  bits  : Nat
  base  : Words
  exact : Bool

-- The smallest prefix, from the top of the value, that covers `[lo, hi]`.
def coverPrefix (lo hi : Words) : Cover :=
  let bits := ((List.range 128).find? fun i => lo.bit i ≠ hi.bit i).getD 128
  let rest := List.range' bits (128 - bits)
  { bits  := bits
    base  := rest.foldl .clearBit lo
    exact := rest.all fun i => lo.bit i = 0 ∧ hi.bit i = 1 }

def mask128 (bits : Nat) : Words :=
  (List.range bits).foldl .setBit .zero

structure AddrCode where
  ip     : Words := .zero
  mask   : Words := .zero
  active : Bool := false
  invert : Bool := false
  exact  : Bool := true

def prefixCode (a : PfAddr) : AddrCode :=
  let cover := coverPrefix a.lo a.hi
  { ip := cover.base, mask := mask128 cover.bits, active := 0 < cover.bits
    exact := cover.exact && a.excl.isNone }

-- Everything but one point.
def holeCode (x : Words) : AddrCode :=
  { ip := x, mask := mask128 128, active := true, invert := true }

def encodeAddr (a : PfAddr) : AddrCode :=
  if a.isFull then {}
  else match a.excl with
    | none   => prefixCode a
    | some x =>
      if (cmp128 a.lo .zero = .eq ∧ cmp128 a.hi .ones = .eq) ∨
          (cmp128 a.lo lo4 = .eq ∧ cmp128 a.hi hi4 = .eq) then
        holeCode x
      else
        prefixCode a

def boolCode (b : Bool) : BitVec 8 :=
  if b then 1 else 0

-- A range that a rule can only compare with one value: other ranges are not expressed at all.
def RangeCode.point {w : Nat} (r : RangeCode w) : RangeCode w :=
  if r.active ∧ r.first ≠ r.last then { exact := false } else r

-- The family-independent part of a rule and whether it says exactly what the cube says.
def encodeCommon (c : Cube) : RuleCommon × Bool :=
  let proto := (encodeRange c.proto.data 255).point
  let sport := encodeRange c.sport.data 65535
  let dport := encodeRange c.dport.data 65535
  let ttl   := (encodeRange c.ttl.data 255).point
  let rule : RuleCommon :=
    { srcPortStart := sport.first
      srcPortEnd   := sport.last
      dstPortStart := dport.first
      dstPortEnd   := dport.last
      matchMask    := matchEnabled ||| flagIf proto.active matchProto |||
        flagIf sport.active matchSrcPort ||| flagIf dport.active matchDstPort |||
        flagIf ttl.active matchTtl ||| flagIf c.dir.isSome matchDirection |||
        flagIf c.loopback.isSome matchLoopback ||| flagIf (c.tcp.mask != 0) matchTcpFlags
      invertMask   := flagIf proto.invert matchProto ||| flagIf sport.invert matchSrcPort |||
        flagIf dport.invert matchDstPort ||| flagIf ttl.invert matchTtl
      proto        := proto.first.setWidth 8
      direction    := c.dir.elim 0 Dir.code
      loopback     := c.loopback.elim 0 boolCode
      ttl          := ttl.first.setWidth 8
      tcpFlags     := if c.tcp.mask ≠ 0 then c.tcp.flags else 0
      tcpFlagsMask := c.tcp.mask }
  (rule, proto.exact && sport.exact && dport.exact && ttl.exact)

-- The rule of a cube for one family, `ip` and `mask` being how the family stores an encoded address.
def emit {α : Type} (zero : α) (ip mask : AddrCode → α) (c : Cube) : FilterRule α × Bool :=
  let common := (encodeCommon c).1
  let src := encodeAddr c.src
  let dst := encodeAddr c.dst
  let rule : FilterRule α :=
    { common with
      matchMask  := flagIf src.active matchSrcIp ||| flagIf dst.active matchDstIp ||| common.matchMask
      invertMask := common.invertMask ||| flagIf src.invert matchSrcIp ||| flagIf dst.invert matchDstIp
      srcIp      := if src.active then ip src else zero
      dstIp      := if dst.active then ip dst else zero
      srcMask    := if src.active then mask src else zero
      dstMask    := if dst.active then mask dst else zero }
  (rule, (encodeCommon c).2 && src.exact && dst.exact)

-- An IPv4 rule keeps the lowest word, provided that the prefix reaches into it.
def AddrCode.mask4 (a : AddrCode) : BitVec 32 :=
  if a.mask.word 1 = 0xFFFFFFFF then a.mask.word 0 else 0

def emitV4 : Cube → FilterRule (BitVec 32) × Bool :=
  emit 0 (·.ip.word 0) (·.mask4)

def emitV6 : Cube → FilterRule Bytes × Bool :=
  emit (.replicate 16 0) (·.ip.toNet16) (·.mask.toNet16)

end Prefilter
