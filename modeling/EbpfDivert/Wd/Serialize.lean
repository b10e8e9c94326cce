import EbpfDivert.Primitives.Bytes
import EbpfDivert.Primitives.Codec
import EbpfDivert.Wd.Basic

-- The text form of compiled filters.
namespace Wd

-- The fields in the order of their codes. The codes that `other` stands for come behind them.
def Field.all : List Field :=
  [ zero, inbound, outbound, ifIdx, subIfIdx,
    ip, ipv6, icmp, tcp, udp, icmpv6,
    ipHdrLength, ipTos, ipLength, ipId, ipDf, ipMf, ipFragOff, ipTtl, ipProtocol, ipChecksum,
    ipSrcAddr, ipDstAddr,
    ipv6TrafficClass, ipv6FlowLabel, ipv6Length, ipv6NextHdr, ipv6HopLimit,
    ipv6SrcAddr, ipv6DstAddr,
    icmpType, icmpCode, icmpChecksum, icmpBody,
    icmpv6Type, icmpv6Code, icmpv6Checksum, icmpv6Body,
    tcpSrcPort, tcpDstPort, tcpSeqNum, tcpAckNum, tcpHdrLength,
    tcpUrg, tcpAck, tcpPsh, tcpRst, tcpSyn, tcpFin,
    tcpWindow, tcpChecksum, tcpUrgPtr, tcpPayloadLength,
    udpSrcPort, udpDstPort, udpLength, udpChecksum, udpPayloadLength,
    loopback, impostor, processId, localAddr, remoteAddr, localPort, remotePort, protocol,
    endpointId, parentEndpointId, layer, priority, event,
    packet, packet16, packet32,
    tcpPayload, tcpPayload16, tcpPayload32, udpPayload, udpPayload16, udpPayload32,
    length, timestamp, random8, random16, random32, fragment ]

def Field.code (f : Field) : Nat :=
  all.idxOf f

def Test.all : List Test :=
  [eq, neq, lt, leq, gt, geq]

def Test.code (t : Test) : Nat :=
  all.idxOf t

-- Which words of the argument are part of the text.
inductive ArgKind
  | narrow   -- the lowest one
  | mapped   -- the lowest one of an IPv4 address
  | wide     -- the two lowest ones
  | full     -- all of them
  | index    -- the lowest one and the index of a byte
deriving DecidableEq

def Field.argKind : Field → ArgKind
  | ipv6SrcAddr | ipv6DstAddr | localAddr | remoteAddr => .full
  | endpointId | parentEndpointId | timestamp => .wide
  | ipSrcAddr | ipDstAddr => .mapped
  | packet | packet16 | packet32 | tcpPayload | tcpPayload16 | tcpPayload32 | udpPayload
  | udpPayload16 | udpPayload32 => .index
  | _ => .narrow

def chr (c : Char) : BitVec 8 :=
  .ofNat 8 c.toNat

section Serialize

def windivertDigits : List Char :=
  [ '0', '1', '2', '3', '4', '5', '6', '7', '8', '9', 'A', 'B', 'C', 'D', 'E', 'F', 'G', 'H', 'I',
    'J', 'K', 'L', 'M', 'N', 'O', 'P', 'Q', 'R', 'S', 'T', 'U', 'V', 'W', 'X', 'Y', 'Z', 'a', 'b',
    'c', 'd', 'e', 'f', 'g', 'h', 'i', 'j', 'k', 'l', 'm', 'n', 'o', 'p', 'q', 'r', 's', 't', 'u',
    'v', 'w', 'x', 'y', 'z', '+', '=' ]

-- The last digit of a number is taken from the second half of the table.
def encodeDigit (dig : Nat) (final : Bool) : BitVec 8 :=
  chr (windivertDigits.getD (dig % 32 + if final then 32 else 0) '0')

-- The five bits that the mask selects, of the digit with index 6 there are only two.
def digit (val : BitVec 32) (dig : Nat) : Nat :=
  val.toNat / 32 ^ dig % 32

-- The first digit that is not zero, from `dig` on.
def leadingDigit (val : BitVec 32) : (dig : Nat) → Nat
  | 0       => 0
  | dig + 1 => if digit val (dig + 1) = 0 then leadingDigit val dig else dig + 1

def putDigits (val : BitVec 32) : (dig : Nat) → Bytes
  | 0       => [encodeDigit (digit val 0) true]
  | dig + 1 => encodeDigit (digit val (dig + 1)) false :: putDigits val dig

def serializeNumber (val : BitVec 32) : Bytes :=
  putDigits val (leadingDigit val 6)

def serializeLabel (label : Nat) : Bytes :=
  if label = resultAccept then [chr 'A']
  else if label = resultReject then [chr 'X']
  else chr 'L' :: serializeNumber (.ofNat 32 label)

def serializeArg (kind : ArgKind) (arg : Words) : Bytes :=
  serializeNumber (arg.word 0) ++ match kind with
    | .full            =>
      serializeNumber (arg.word 1) ++ serializeNumber (arg.word 2) ++ serializeNumber (arg.word 3)
    | .wide            => serializeNumber (arg.word 1)
    | .index           => serializeNumber (arg.word 1 + 0xFFFF)
    | .narrow | .mapped => []

def serializeTest (insn : Insn) : Bytes :=
  [chr '_'] ++ serializeNumber (.ofNat 32 insn.field.code) ++
  serializeNumber (.ofNat 32 insn.test.code) ++ serializeNumber (if insn.neg then 1 else 0) ++
  serializeArg insn.field.argKind insn.arg ++ serializeLabel insn.success ++
  serializeLabel insn.failure

def magic : Bytes :=
  ['@', 'W', 'i', 'n', 'D', 'i', 'v', '_'].map chr

-- The characters up to the terminating one. The length is a `UINT8`.
def serializeFilter (object : List Insn) : Bytes :=
  let length := object.length % 256
  magic ++ serializeNumber 0 ++ serializeNumber (.ofNat 32 length) ++
  (object.take length).flatMap serializeTest

end Serialize

section Stream

-- A buffer that is filled from the front. All serializers only put characters into it.
structure Stream where
  data     : Bytes
  pos      : Nat
  overflow : Bool

def Stream.putChar (s : Stream) (c : BitVec 8) : Stream :=
  if s.data.length ≤ s.pos then { s with overflow := true }
  else { s with data := s.data.set s.pos c, pos := s.pos + 1 }

def Stream.putString (s : Stream) (str : Bytes) : Stream :=
  str.foldl putChar s

def Stream.putNul (s : Stream) : Stream :=
  if s.data.length ≤ s.pos ∧ 0 < s.data.length then
    { s with data := s.data.set (s.data.length - 1) 0 }
  else s.putChar 0

-- The contents of the buffer, and the length that is returned or `-ENOSPC`.
def filterSerialize (f : Filter) (buf : Bytes) : Bytes × Option Nat :=
  let stream := (Stream.putString ⟨buf, 0, false⟩ (serializeFilter f.object)).putNul
  (stream.data, if stream.overflow then none else some stream.pos)

theorem length_filterSerialize {f : Filter} {buf : Bytes} :
    (filterSerialize f buf).1.length = buf.length := by
  have hc {s : Stream} {c : BitVec 8} : (s.putChar c).data.length = s.data.length := by
    rw [Stream.putChar]
    split <;> simp
  have hs {s : Stream} {w : Bytes} : (s.putString w).data.length = s.data.length := by
    induction w generalizing s
    case nil => rfl
    case cons ih => exact ih.trans hc
  have hn {s : Stream} : s.putNul.data.length = s.data.length := by
    rw [Stream.putNul]
    split
    case isTrue => exact List.length_set
    case isFalse => exact hc
  exact hn.trans hs

end Stream

section Deserialize

abbrev TextReader := Reader (BitVec 8)

def decodeDigit (c : BitVec 8) : Option (Nat × Bool) :=
  let span := fun (first last : Char) (digit : Nat) (final : Bool) =>
    if first.toNat ≤ c.toNat ∧ c.toNat ≤ last.toNat then
      some (c.toNat - first.toNat + digit, final)
    else none
  span '0' '9' 0 false <|> span 'A' 'V' 10 false <|> span 'W' 'Z' 0 true <|>
  span 'a' 'z' 4 true <|> span '+' '+' 30 true <|> span '=' '=' 31 true

-- The rest of a number, of which `val` has been read and at most `left` digits follow.
def deserializeDigits : (left : Nat) → (val : BitVec 32) → TextReader (BitVec 32)
  | 0,        _   => failure
  | left + 1, val => do
    guard (val &&& 0xF8000000 = 0)
    let (digit, final) ← Reader.next decodeDigit
    let val := val <<< 5 + .ofNat 32 digit
    if final then pure val else deserializeDigits left val

def deserializeNumber (maxLen : Nat) : TextReader (BitVec 32) :=
  deserializeDigits maxLen 0

-- A label that is a verdict, or else a number that follows.
def labelKind (c : BitVec 8) : Option (Option Nat) :=
  if c = chr 'A' then some (some resultAccept)
  else if c = chr 'X' then some (some resultReject)
  else if c = chr 'L' then some none
  else none

def deserializeLabel : TextReader Nat := do
  match ← Reader.next labelKind with
  | some label => pure label
  | none       =>
    let val ← deserializeNumber 2
    guard (val.toNat ≤ filterMaxLen)
    pure val.toNat

def literal (c : BitVec 8) : TextReader Unit :=
  Reader.next fun c' => if c' = c then some () else none

-- A code of one of the values in a list.
def deserializeCode {α : Type} (all : List α) : TextReader α := do
  let val ← deserializeNumber 2
  match all[val.toNat]? with
  | some a => pure a
  | none   => failure

def deserializeArg (kind : ArgKind) : TextReader Words := do
  let arg₀ ← deserializeNumber 7
  match kind with
  | .full   =>
    let arg₁ ← deserializeNumber 7
    let arg₂ ← deserializeNumber 7
    let arg₃ ← deserializeNumber 7
    pure (.of arg₀ arg₁ arg₂ arg₃)
  | .wide   =>
    let arg₁ ← deserializeNumber 7
    pure (.of arg₀ arg₁ 0 0)
  | .mapped => pure (.mapped arg₀)
  | .index  =>
    let val ← deserializeNumber 7
    pure (.of arg₀ (val - 0xFFFF) 0 0)
  | .narrow => pure (.ofNarrow arg₀)

def deserializeTest : TextReader Insn := do
  literal (chr '_')
  let field ← deserializeCode Field.all
  let test ← deserializeCode Test.all
  let neg ← deserializeNumber 1
  guard (neg.toNat ≤ 1)
  let arg ← deserializeArg field.argKind
  let success ← deserializeLabel
  let failure ← deserializeLabel
  pure { field, test, success, failure, neg := neg = 1, arg }

def deserializeFilterHeader : TextReader Nat := do
  magic.forM literal
  let version ← deserializeNumber 4
  guard (version = 0)
  let length ← deserializeNumber 2
  guard (length ≠ 0 ∧ length.toNat ≤ filterMaxLen)
  pure length.toNat

-- Labels that are not verdicts have to point forward.
def labelOk (length i label : Nat) : Bool :=
  label = resultAccept ∨ label = resultReject ∨ (i < label ∧ label < length)

def deserializeTests (length : Nat) : (left i : Nat) → TextReader (List Insn)
  | 0,        _ => pure []
  | left + 1, i => do
    let insn ← deserializeTest
    guard (labelOk length i insn.success ∧ labelOk length i insn.failure)
    let insns ← deserializeTests length left (i + 1)
    pure (insn :: insns)

def deserializeFilter : TextReader (List Insn) := do
  let length ← deserializeFilterHeader
  let object ← deserializeTests length length 0
  literal 0
  pure object

-- A string that starts with `@` is a compiled filter, for any layer. `compileText` is the compiler
-- of filter expressions.
def filterCompile (compileText : Layer → Bytes → Option (List Insn)) (layer : Layer)
    (filter : Bytes) : Option Filter := do
  let object ← if filter.head? = some (chr '@') then (deserializeFilter.run filter).map (·.1)
    else compileText layer filter
  some ⟨layer, object⟩

end Deserialize

end Wd
