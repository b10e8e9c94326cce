import EbpfDivert.Wd.Text.Compile
import EbpfDivert.Wd.Text.Decompile

-- From compiled filters to filter strings.
namespace Wd.Text

section Names

def fieldName : Field → String
  | .zero => "zero"
  | .event => "event"
  | .random8 => "random8"
  | .random16 => "random16"
  | .random32 => "random32"
  | .packet => "packet"
  | .packet16 => "packet16"
  | .packet32 => "packet32"
  | .length => "length"
  | .timestamp => "timestamp"
  | .tcpPayload => "tcp.Payload"
  | .tcpPayload16 => "tcp.Payload16"
  | .tcpPayload32 => "tcp.Payload32"
  | .udpPayload => "udp.Payload"
  | .udpPayload16 => "udp.Payload16"
  | .udpPayload32 => "udp.Payload32"
  | .inbound => "inbound"
  | .outbound => "outbound"
  | .fragment => "fragment"
  | .ifIdx => "ifIdx"
  | .subIfIdx => "subIfIdx"
  | .ip => "ip"
  | .ipv6 => "ipv6"
  | .icmp => "icmp"
  | .tcp => "tcp"
  | .udp => "udp"
  | .icmpv6 => "icmpv6"
  | .ipHdrLength => "ip.HdrLength"
  | .ipTos => "ip.TOS"
  | .ipLength => "ip.Length"
  | .ipId => "ip.Id"
  | .ipDf => "ip.DF"
  | .ipMf => "ip.MF"
  | .ipFragOff => "ip.FragOff"
  | .ipTtl => "ip.TTL"
  | .ipProtocol => "ip.Protocol"
  | .ipChecksum => "ip.Checksum"
  | .ipSrcAddr => "ip.SrcAddr"
  | .ipDstAddr => "ip.DstAddr"
  | .ipv6TrafficClass => "ipv6.TrafficClass"
  | .ipv6FlowLabel => "ipv6.FlowLabel"
  | .ipv6Length => "ipv6.Length"
  | .ipv6NextHdr => "ipv6.NextHdr"
  | .ipv6HopLimit => "ipv6.HopLimit"
  | .ipv6SrcAddr => "ipv6.SrcAddr"
  | .ipv6DstAddr => "ipv6.DstAddr"
  | .icmpType => "icmp.Type"
  | .icmpCode => "icmp.Code"
  | .icmpChecksum => "icmp.Checksum"
  | .icmpBody => "icmp.Body"
  | .icmpv6Type => "icmpv6.Type"
  | .icmpv6Code => "icmpv6.Code"
  | .icmpv6Checksum => "icmpv6.Checksum"
  | .icmpv6Body => "icmpv6.Body"
  | .tcpSrcPort => "tcp.SrcPort"
  | .tcpDstPort => "tcp.DstPort"
  | .tcpSeqNum => "tcp.SeqNum"
  | .tcpAckNum => "tcp.AckNum"
  | .tcpHdrLength => "tcp.HdrLength"
  | .tcpUrg => "tcp.Urg"
  | .tcpAck => "tcp.Ack"
  | .tcpPsh => "tcp.Psh"
  | .tcpRst => "tcp.Rst"
  | .tcpSyn => "tcp.Syn"
  | .tcpFin => "tcp.Fin"
  | .tcpWindow => "tcp.Window"
  | .tcpChecksum => "tcp.Checksum"
  | .tcpUrgPtr => "tcp.UrgPtr"
  | .tcpPayloadLength => "tcp.PayloadLength"
  | .udpSrcPort => "udp.SrcPort"
  | .udpDstPort => "udp.DstPort"
  | .udpLength => "udp.Length"
  | .udpChecksum => "udp.Checksum"
  | .udpPayloadLength => "udp.PayloadLength"
  | .loopback => "loopback"
  | .impostor => "impostor"
  | .processId => "processId"
  | .localAddr => "localAddr"
  | .remoteAddr => "remoteAddr"
  | .localPort => "localPort"
  | .remotePort => "remotePort"
  | .protocol => "protocol"
  | .endpointId => "endpointId"
  | .parentEndpointId => "parentEndpointId"
  | .layer => "layer"
  | .priority => "priority"
  | .other => ""

-- The fields that are written without a number where it is 0 or 1.
def isFlag : Field → Bool
  | .zero | .inbound | .outbound | .fragment | .ip | .ipv6 | .icmp | .tcp | .udp | .icmpv6 | .ipDf | .ipMf
  | .tcpUrg | .tcpAck | .tcpPsh | .tcpRst | .tcpSyn | .tcpFin | .loopback | .impostor => true
  | _ => false

def isHex : Field → Bool
  | .packet | .packet16 | .packet32 | .ipId | .ipChecksum | .tcpChecksum | .tcpPayload | .tcpPayload16
  | .tcpPayload32 | .udpChecksum | .udpPayload | .udpPayload16 | .udpPayload32 | .icmpChecksum
  | .icmpv6Checksum => true
  | _ => false

def comparison : Test → String
  | .eq    => " = "
  | .neq   => " != "
  | .lt    => " < "
  | .leq   => " <= "
  | .gt    => " > "
  | .geq   => " >= "
  | .other => ""

def layerName (val : BitVec 32) : Option String :=
  if val = layerNetwork then some "NETWORK"
  else if val = layerNetworkForward then some "NETWORK_FORWARD"
  else if val = layerFlow then some "FLOW"
  else if val = layerSocket then some "SOCKET"
  else if val = layerReflect then some "REFLECT"
  else none

def eventName (layer : Layer) (val : BitVec 32) : Option String :=
  match layer with
  | .network | .networkForward => if val = eventNetworkPacket then some "PACKET" else none
  | .flow                      =>
    if val = eventFlowEstablished then some "ESTABLISHED"
    else if val = eventFlowDeleted then some "DELETED"
    else none
  | .socket                    =>
    if val = eventSocketBind then some "BIND"
    else if val = eventSocketConnect then some "CONNECT"
    else if val = eventSocketListen then some "LISTEN"
    else if val = eventSocketAccept then some "ACCEPT"
    else if val = eventSocketClose then some "CLOSE"
    else none
  | .reflect                   =>
    if val = eventReflectOpen then some "OPEN"
    else if val = eventReflectClose then some "CLOSE"
    else none

end Names

section Text

-- The number of a test. Only the lowest word of an IPv4 address, a layer or an event is written.
def formatValue (layer : Layer) (f : Field) (val : Words) : Option CString :=
  match f with
  | .ipSrcAddr | .ipDstAddr => some (formatIPv4Addr (val.word 0))
  | .ipv6SrcAddr | .ipv6DstAddr | .localAddr | .remoteAddr => some (formatIPv6Addr val)
  | .layer => some ((layerName (val.word 0)).elim (formatDecNumber32 (val.word 0)) String.toList)
  | .event => some ((eventName layer (val.word 0)).elim (formatDecNumber32 (val.word 0)) String.toList)
  | f => if isHex f then some ('0' :: 'x' :: formatHexNumber val) else formatDecNumber val

-- None where the index has no absolute value.
def formatIndex (idx : BitVec 32) : Option CString :=
  if idx = .intMin 32 then none
  else if idx.msb then some ('[' :: '-' :: formatDecNumber32 (-idx) ++ ['b', ']'])
  else some ('[' :: formatDecNumber32 idx ++ ['b', ']'])

def formatVar : Var → Option CString
  | .true        => some "true".toList
  | .false       => some "false".toList
  | .field f idx =>
    if isArray f then (formatIndex idx).map ((fieldName f).toList ++ ·) else some (fieldName f).toList

-- Whether a test of a flag is written with `not`, none where it is not written as a flag.
def negated (t : TestExpr) (f : Field) : Option Bool :=
  if isFlag f ∧ t.val.val.word 1 = 0 ∧ t.val.val.word 2 = 0 ∧ t.val.val.word 3 = 0 ∧
      (t.val.val.word 0).toNat ≤ 1 then
    match t.kind with
    | .eq  => some (t.val.val.word 0 = 0)
    | .neq => some (t.val.val.word 0 ≠ 0)
    | _    => none
  else
    none

end Text

section Stream

-- All that is written goes into a buffer. The results are none where the behaviour is not defined.
abbrev Writer := Stream → Option Stream

def put (str : CString) : Writer :=
  fun s => some (s.putString (str.map chr))

def full (s : Stream) : Bool :=
  s.data.length ≤ s.pos

-- Nothing is formatted where there is no room left.
def unlessFull (w : Writer) : Writer :=
  fun s => if full s then some s else w s

def seq (w w' : Writer) : Writer :=
  fun s => (w s).bind w'

def putVar (v : Var) : Writer :=
  unlessFull fun s => (formatVar v).bind (put · s)

def putWhen (b : Bool) (str : CString) : Writer :=
  if b then put str else some

def putNumber (layer : Layer) (t : TestExpr) : Writer :=
  seq (put (comparison t.kind).toList) <| seq (putWhen t.val.neg ['-']) fun s =>
    match t.var with
    | .field f _ => (formatValue layer f t.val.val).bind (put · s)
    | _          => (formatDecNumber t.val.val).bind (put · s)

def formatTestExpr (layer : Layer) (t : TestExpr) : Writer :=
  match t.var with
  | .field f _ =>
    match negated t f with
    | some not => seq (putWhen not "not ".toList) (putVar t.var)
    | none     => seq (putVar t.var) (putNumber layer t)
  | _          => seq (putVar t.var) (putNumber layer t)

def formatExpr (layer : Layer) : Formula TestExpr → (topLevel and : Bool) → Writer
  | .const b,     _,   _   => unlessFull (put (if b then "true".toList else "false".toList))
  | .ask t,       _,   _   => unlessFull (formatTestExpr layer t)
  | .and a b,     top, and => unlessFull <|
    seq (putWhen (!top && !and) ['(']) <| seq (formatExpr layer a false true) <| seq (put " and ".toList) <|
    seq (formatExpr layer b false true) (putWhen (!top && !and) [')'])
  | .or a b,      top, and => unlessFull <|
    seq (putWhen (!top && and) ['(']) <| seq (formatExpr layer a false false) <| seq (put " or ".toList) <|
    seq (formatExpr layer b false false) (putWhen (!top && and) [')'])
  | .ite c th el, _,   _   => unlessFull <|
    seq (put ['(']) <| seq (formatExpr layer c true false) <| seq (put "? ".toList) <|
    seq (formatExpr layer th true false) <| seq (put ": ".toList) <|
    seq (formatExpr layer el true false) (put [')'])

-- The number of expressions that the parser makes for a token, if it finds no error: one for a test or
-- an operator, and one more for the index of packet data and for the number behind a comparison.
def Kind.exprs : Kind → Nat
  | .field f => if isArray f then 2 else 1
  | .true | .false | .eq | .neq | .lt | .leq | .gt | .geq | .and | .or | .question => 1
  | _ => 0

def poolSize : Nat := 131072

-- The room that is left in the pool after a filter has been compiled. The compiled filter is kept in
-- the pool, and so are the tokens, the stack and the expressions of the parser.
def roomAfter (layer : Layer) (filter : CString) : Nat :=
  let room := poolSize - 24 * filterMaxLen
  if filter.head? = some '@' then room
  else
    match tokenizeFilter layer filter with
    | some (.ok toks) =>
      room - 24 * (5 * filterMaxLen) - 8 * filterMaxLen - exprSize * (toks.map (·.kind.exprs)).sum
    | _ => room

-- The contents of the buffer, and whether `TRUE` is returned. An error leaves the buffer as it was,
-- and so does a pool that is exhausted.
def formatFilter (layer : Layer) (filter : CString) (buffer : Bytes) : Option (Bytes × Bool) := do
  match ← compileFilter layer filter with
  | .error _   => some (buffer, false)
  | .ok object =>
    match ← decompileFilter (roomAfter layer filter) object with
    | none      => some (buffer, false)
    | some expr =>
      let stream ← formatExpr layer expr true false ⟨buffer, 0, false⟩
      let stream := stream.putNul
      some (stream.data, !stream.overflow)

end Stream

end Wd.Text
