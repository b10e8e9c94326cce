import EbpfDivert.Primitives.CString
import EbpfDivert.Shared
import EbpfDivert.Kernel.Match

open Shared CString

-- The rules of the pinned mode. Two tables are shared by every process that loads the driver, and
-- rules are written into them from text, one entry at a time.
namespace Pinned

def inaddrNone : BitVec 32 := 0xFFFFFFFF

-- How addresses are read from text. Those of IPv4 are in host byte order, and the one that stands
-- for a failure cannot be written.
structure Libc where
  inetAddr      : CString → BitVec 32
  inetPton6     : CString → Option Bytes
  inetAddr_nil  : inetAddr [] = inaddrNone
  inetPton6_nil : inetPton6 [] = none

inductive RuleError
  | nullArgument
  | mapsNotFound
  | indexOutOfRange
  | invalidAddress (ip : CString)
  | invalidBits (bits : Int)
  | updateFailed

section Cidr

-- An address, possibly followed by the number of its bits that count.
def parseCidr {α : Type} (size maxBits : Nat) (addr : CString → Option α) (mask : Nat → α)
    (s : CString) : Except RuleError (α × α) :=
  let (ip, suffix) := cut '/' (copied size s)
  let bits := suffix.elim (maxBits : Int) atoi
  match addr ip with
  | none   => .error (.invalidAddress ip)
  | some a =>
    if bits < 0 ∨ maxBits < bits then .error (.invalidBits bits)
    else .ok (a, mask bits.toNat)

def maskIpv4 (bits : Nat) : BitVec 32 :=
  if 32 ≤ bits then 0xFFFFFFFF else if bits = 0 then 0 else 0xFFFFFFFF <<< (32 - bits)

-- The mask is filled byte by byte.
def maskIpv6 : (n bits : Nat) → Bytes
  | 0,     _    => []
  | n + 1, bits =>
    if 8 ≤ bits then 0xFF :: maskIpv6 n (bits - 8)
    else if 0 < bits then 0xFF <<< (8 - bits) :: maskIpv6 n 0
    else 0 :: maskIpv6 n 0

def parseCidrIpv4 (libc : Libc) : CString → Except RuleError (BitVec 32 × BitVec 32) :=
  parseCidr 64 32
    (fun ip => if libc.inetAddr ip = inaddrNone then none else some (libc.inetAddr ip)) maskIpv4

def parseCidrIpv6 (libc : Libc) : CString → Except RuleError (Bytes × Bytes) :=
  parseCidr 128 128 libc.inetPton6 (maskIpv6 16)

end Cidr

-- What differs between the families.
structure Family (α : Type) where
  zero      : FilterRule α
  icmpName  : CString
  icmp      : BitVec 8
  parseCidr : CString → Except RuleError (α × α)

def ipv4 (libc : Libc) : Family (BitVec 32) :=
  ⟨.v4Zero, "icmp".toList, 1, parseCidrIpv4 libc⟩

def ipv6 (libc : Libc) : Family Bytes :=
  ⟨.v6Zero, "icmpv6".toList, 58, parseCidrIpv6 libc⟩

section Fields

variable {α : Type} (fam : Family α)

def enabledRule : FilterRule α :=
  { fam.zero with matchMask := matchEnabled }

-- The two calls do not compare the names in the same way.
def protoCode (same : CString → CString → Bool) (proto : CString) : BitVec 8 :=
  if same proto "tcp".toList then 6
  else if same proto "udp".toList then 17
  else if same proto fam.icmpName then fam.icmp
  else .ofInt 8 (atoi proto)

def setProto (same : CString → CString → Bool) (proto : CString) (r : FilterRule α) :
    FilterRule α :=
  { r with matchMask := r.matchMask ||| matchProto, proto := protoCode fam same proto }

def actionMask (action : CString) : BitVec 16 :=
  if action = "drop".toList then matchDrop
  else if action = "sniff".toList then matchSniff
  else 0

def setAction (action : CString) (r : FilterRule α) : FilterRule α :=
  { r with matchMask := r.matchMask ||| actionMask action }

def setSrcIp (cidr : CString) (r : FilterRule α) : Except RuleError (FilterRule α) := do
  let (ip, mask) ← fam.parseCidr cidr
  return { r with matchMask := r.matchMask ||| matchSrcIp, srcIp := ip, srcMask := mask }

def setDstIp (cidr : CString) (r : FilterRule α) : Except RuleError (FilterRule α) := do
  let (ip, mask) ← fam.parseCidr cidr
  return { r with matchMask := r.matchMask ||| matchDstIp, dstIp := ip, dstMask := mask }

-- Two numbers with a dash between them, or the same one twice.
def parsePorts (range : CString) : BitVec 16 × BitVec 16 :=
  let (first, last) := cut '-' (copied 32 range)
  (.ofInt 16 (atoi first), .ofInt 16 (atoi (last.getD first)))

-- A type and a code with a slash between them. Without a code it is zero.
def parseIcmp (range : CString) : BitVec 16 × BitVec 16 :=
  let s := copied 32 range
  (.ofInt 16 (atoi s), .ofInt 16 ((cut '/' s).2.elim 0 atoi))

def setSrcPort (range : CString) (r : FilterRule α) : FilterRule α :=
  let (first, last) := parsePorts range
  { r with matchMask := r.matchMask ||| matchSrcPort, srcPortStart := first, srcPortEnd := last }

-- The type of ICMP messages is kept where other protocols have the source port, the code in the
-- place of the destination port. Only the latter is enabled.
def setDstPort (range : CString) (r : FilterRule α) : FilterRule α :=
  let mask := r.matchMask ||| matchDstPort
  if r.proto = fam.icmp then
    let (type, code) := parseIcmp range
    { r with
      matchMask := mask, srcPortStart := type, srcPortEnd := type, dstPortStart := code,
      dstPortEnd := code }
  else
    let (first, last) := parsePorts range
    { r with matchMask := mask, dstPortStart := first, dstPortEnd := last }

def setDirection (direction : CString) (r : FilterRule α) : FilterRule α :=
  { r with
    matchMask := r.matchMask ||| matchDirection
    direction :=
      if sameUpToCase direction "ingress".toList then 1
      else if sameUpToCase direction "egress".toList then 2
      else r.direction }

def setLoopback (loopback : CString) (r : FilterRule α) : FilterRule α :=
  { r with
    matchMask := r.matchMask ||| matchLoopback
    loopback :=
      if sameUpToCase loopback "yes".toList then 1
      else if sameUpToCase loopback "no".toList then 0
      else r.loopback }

def setTtl (ttl : CString) (r : FilterRule α) : FilterRule α :=
  { r with matchMask := r.matchMask ||| matchTtl, ttl := .ofInt 8 (atoi ttl) }

def tcpFlagNames : List (CString × BitVec 8) :=
  [ ("FIN".toList, 0x01), ("SYN".toList, 0x02), ("RST".toList, 0x04), ("PSH".toList, 0x08),
    ("ACK".toList, 0x10), ("URG".toList, 0x20), ("ECE".toList, 0x40), ("CWR".toList, 0x80) ]

def tcpFlag (token : CString) : BitVec 8 :=
  (tcpFlagNames.find? fun (name, _) => sameUpToCase token name).elim 0 (·.2)

-- A number in hexadecimal, or names with separators between them.
def parseTcpFlags (str : CString) : BitVec 8 :=
  match str with
  | '0' :: 'x' :: _ | '0' :: 'X' :: _ => .ofInt 8 (strtol 16 str)
  | _ => (tokens ", |".toList (copied 64 str)).foldl (fun flags token => flags ||| tcpFlag token) 0

end Fields

-- An option that is not given, empty or `any` does not restrict the packets.
def isOptionActive (val : Option CString) : Bool :=
  val.any fun s => s ≠ "any".toList ∧ s ≠ []

def whenActive {ρ σ : Type} (val : Option CString) (skip : ρ → σ) (set : CString → ρ → σ) : ρ → σ :=
  if isOptionActive val then val.elim skip set else skip

-- The short call only knows `any`.
def unlessAny {ρ σ : Type} (val : CString) (skip : ρ → σ) (set : CString → ρ → σ) : ρ → σ :=
  if val = "any".toList then skip else set val

structure RuleOpt where
  proto        : Option CString
  srcIpCidr    : Option CString
  dstIpCidr    : Option CString
  srcPortRange : Option CString
  dstPortRange : Option CString
  action       : Option CString
  direction    : Option CString
  loopback     : Option CString
  ttl          : Option CString
  tcpFlags     : Option CString
  tcpFlagsMask : Option CString
  invertMask   : BitVec 16

def setTcpFlags {α : Type} (mask : Option CString) (tcpFlags : CString) (r : FilterRule α) :
    FilterRule α :=
  { r with
    matchMask    := r.matchMask ||| matchTcpFlags
    tcpFlags     := parseTcpFlags tcpFlags
    tcpFlagsMask := if isOptionActive mask then mask.elim 0xFF parseTcpFlags else 0xFF }

section Build

variable {α : Type} (fam : Family α)

-- ICMP has no source ports.
def addSrcPort (range : Option CString) (r : FilterRule α) : FilterRule α :=
  if r.proto = fam.icmp then r else whenActive range id setSrcPort r

-- The rule that `ebpfdivert_rules_add_extended` writes.
def extendedRule (opt : RuleOpt) : Except RuleError (FilterRule α) := do
  let r := enabledRule fam
  let r := whenActive opt.proto id (setProto fam sameUpToCase) r
  let r := opt.action.elim id setAction r
  let r ← whenActive opt.srcIpCidr .ok (setSrcIp fam) r
  let r ← whenActive opt.dstIpCidr .ok (setDstIp fam) r
  let r := addSrcPort fam opt.srcPortRange r
  let r := whenActive opt.dstPortRange id (setDstPort fam) r
  let r := whenActive opt.direction id setDirection r
  let r := whenActive opt.loopback id setLoopback r
  let r := whenActive opt.ttl id setTtl r
  let r := whenActive opt.tcpFlags id (setTcpFlags opt.tcpFlagsMask) r
  return { r with invertMask := opt.invertMask }

-- The rule that `ebpfdivert_rules_add` writes.
def shortRule (proto ipCidr portRange action : CString) : Except RuleError (FilterRule α) := do
  let r := enabledRule fam
  let r := unlessAny proto id (setProto fam (· == ·)) r
  let r := setAction action r
  let r ← unlessAny ipCidr .ok (setDstIp fam) r
  return unlessAny portRange id (setDstPort fam) r

end Build

-- What the kernel answers during one call: whether the maps are there and take an entry.
structure MapEnv where
  found   : IpVer → Bool
  updates : IpVer → Bool

-- The one update that a call makes.
inductive Write
  | v4 (idx : Fin maxRules) (rule : FilterRule (BitVec 32))
  | v6 (idx : Fin maxRules) (rule : FilterRule Bytes)
deriving DecidableEq

section Calls

variable (libc : Libc) (env : MapEnv)

-- A call that fails makes no update.
def commit {α : Type} (updates : Bool) (write : FilterRule α → Write)
    (rule : Except RuleError (FilterRule α)) : Except RuleError Write := do
  let rule ← rule
  if updates then return write rule else throw .updateFailed

def addRule (idx : Int) (isIpv6 : Bool)
    (build : {α : Type} → Family α → Except RuleError (FilterRule α)) : Except RuleError Write :=
  if !env.found .v4 || !env.found .v6 then .error .mapsNotFound
  else if h : 0 ≤ idx ∧ idx < maxRules then
    let i : Fin maxRules := ⟨idx.toNat, by omega⟩
    if isIpv6 then commit (env.updates .v6) (.v6 i) (build (ipv6 libc))
    else commit (env.updates .v4) (.v4 i) (build (ipv4 libc))
  else .error .indexOutOfRange

def isIpv6Cidr (cidr : Option CString) : Bool :=
  cidr.any (·.contains ':')

def rulesAddExtended (idx : Int) : Option RuleOpt → Except RuleError Write
  | none     => .error .nullArgument
  | some opt =>
    addRule libc env idx
      (isIpv6Cidr opt.srcIpCidr || isIpv6Cidr opt.dstIpCidr || opt.proto == some "icmpv6".toList)
      (extendedRule · opt)

def rulesAdd (idx : Int) : (proto ipCidr portRange action : Option CString) →
    Except RuleError Write
  | some proto, some ipCidr, some portRange, some action =>
    addRule libc env idx (isIpv6Cidr (some ipCidr) || proto == "icmpv6".toList)
      (shortRule · proto ipCidr portRange action)
  | _, _, _, _ => .error .nullArgument

end Calls

-- The pinned tables.
structure RuleTables where
  v4        : List (FilterRule (BitVec 32))
  v6        : List (FilterRule Bytes)
  length_v4 : v4.length = maxRules
  length_v6 : v6.length = maxRules

def RuleTables.empty : RuleTables where
  v4        := .replicate maxRules .v4Zero
  v6        := .replicate maxRules .v6Zero
  length_v4 := List.length_replicate
  length_v6 := List.length_replicate

def RuleTables.update (t : RuleTables) : Write → RuleTables
  | .v4 idx rule => { t with v4 := t.v4.set idx rule, length_v4 := by simp [t.length_v4] }
  | .v6 idx rule => { t with v6 := t.v6.set idx rule, length_v6 := by simp [t.length_v6] }

-- A call of one of the two functions.
inductive Call
  | add (env : MapEnv) (idx : Int) (proto ipCidr portRange action : Option CString)
  | addExtended (env : MapEnv) (idx : Int) (opt : Option RuleOpt)

def Call.run (libc : Libc) : Call → Except RuleError Write
  | add env idx proto ipCidr portRange action =>
    rulesAdd libc env idx proto ipCidr portRange action
  | addExtended env idx opt => rulesAddExtended libc env idx opt

def RuleTables.call (libc : Libc) (t : RuleTables) (c : Call) : RuleTables :=
  match c.run libc with
  | .error _ => t
  | .ok w    => t.update w

-- The tables after a sequence of calls.
def RuleTables.calls (libc : Libc) (cs : List Call) : RuleTables :=
  cs.foldl (call libc) empty

-- The tables as the packet programs see them.
def RuleTables.tables (t : RuleTables) (trie4 : BitVec 32 → Option (BitVec 32))
    (trie6 : Bytes → Option (BitVec 32)) : Kernel.Tables :=
  ⟨t.v4, t.v6, trie4, trie6⟩

end Pinned
