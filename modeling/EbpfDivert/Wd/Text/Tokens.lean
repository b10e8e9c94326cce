import EbpfDivert.Primitives.BinarySearch
import EbpfDivert.Wd.Text.Numbers
import EbpfDivert.Wd.Text.Parse

-- From filter strings to tokens.
namespace Wd.Text

section Words

def layerNetwork        : BitVec 32 := 0
def layerNetworkForward : BitVec 32 := 1
def layerFlow           : BitVec 32 := 2
def layerSocket         : BitVec 32 := 3
def layerReflect        : BitVec 32 := 4

-- Events have values only on the layer where they occur.
def expandMacro (m : Macro) (layer : Layer) : Option (BitVec 32) :=
  match m with
  | .network          => some layerNetwork
  | .networkForward   => some layerNetworkForward
  | .flow             => some layerFlow
  | .socket           => some layerSocket
  | .reflect          => some layerReflect
  | .eventPacket      => if layer ∈ [.network, .networkForward] then some eventNetworkPacket else none
  | .eventEstablished => if layer = .flow then some eventFlowEstablished else none
  | .eventDeleted     => if layer = .flow then some eventFlowDeleted else none
  | .eventBind        => if layer = .socket then some eventSocketBind else none
  | .eventConnect     => if layer = .socket then some eventSocketConnect else none
  | .eventListen      => if layer = .socket then some eventSocketListen else none
  | .eventAccept      => if layer = .socket then some eventSocketAccept else none
  | .eventOpen        => if layer = .reflect then some eventReflectOpen else none
  | .eventClose       =>
    match layer with
    | .socket  => some eventSocketClose
    | .reflect => some eventReflectClose
    | _        => none
  | .true             => some 1
  | .false            => some 0
  | .tcp              => some (ipprotoTcp.setWidth 32)
  | .udp              => some (ipprotoUdp.setWidth 32)
  | .icmp             => some (ipprotoIcmp.setWidth 32)
  | .icmpv6           => some (ipprotoIcmpv6.setWidth 32)

def tokenNames : List (String × Kind) :=
  [ ("ACCEPT", .named .eventAccept), ("BIND", .named .eventBind), ("CLOSE", .named .eventClose),
    ("CONNECT", .named .eventConnect), ("DELETED", .named .eventDeleted),
    ("ESTABLISHED", .named .eventEstablished), ("FALSE", .named .false), ("FLOW", .named .flow),
    ("ICMP", .named .icmp), ("ICMPV6", .named .icmpv6), ("LISTEN", .named .eventListen),
    ("NETWORK", .named .network), ("NETWORK_FORWARD", .named .networkForward),
    ("OPEN", .named .eventOpen), ("PACKET", .named .eventPacket), ("REFLECT", .named .reflect),
    ("SOCKET", .named .socket), ("TCP", .named .tcp), ("TRUE", .named .true), ("UDP", .named .udp),
    ("and", .and), ("endpointId", .field .endpointId), ("event", .field .event), ("false", .false),
    ("fragment", .field .fragment), ("icmp", .field .icmp), ("icmp.Body", .field .icmpBody),
    ("icmp.Checksum", .field .icmpChecksum), ("icmp.Code", .field .icmpCode),
    ("icmp.Type", .field .icmpType), ("icmpv6", .field .icmpv6),
    ("icmpv6.Body", .field .icmpv6Body), ("icmpv6.Checksum", .field .icmpv6Checksum),
    ("icmpv6.Code", .field .icmpv6Code), ("icmpv6.Type", .field .icmpv6Type),
    ("ifIdx", .field .ifIdx), ("impostor", .field .impostor), ("inbound", .field .inbound),
    ("ip", .field .ip), ("ip.Checksum", .field .ipChecksum), ("ip.DF", .field .ipDf),
    ("ip.DstAddr", .field .ipDstAddr), ("ip.FragOff", .field .ipFragOff),
    ("ip.HdrLength", .field .ipHdrLength), ("ip.Id", .field .ipId), ("ip.Length", .field .ipLength),
    ("ip.MF", .field .ipMf), ("ip.Protocol", .field .ipProtocol), ("ip.SrcAddr", .field .ipSrcAddr),
    ("ip.TOS", .field .ipTos), ("ip.TTL", .field .ipTtl), ("ipv6", .field .ipv6),
    ("ipv6.DstAddr", .field .ipv6DstAddr), ("ipv6.FlowLabel", .field .ipv6FlowLabel),
    ("ipv6.HopLimit", .field .ipv6HopLimit), ("ipv6.Length", .field .ipv6Length),
    ("ipv6.NextHdr", .field .ipv6NextHdr), ("ipv6.SrcAddr", .field .ipv6SrcAddr),
    ("ipv6.TrafficClass", .field .ipv6TrafficClass), ("layer", .field .layer),
    ("length", .field .length), ("localAddr", .field .localAddr), ("localPort", .field .localPort),
    ("loopback", .field .loopback), ("not", .not), ("or", .or), ("outbound", .field .outbound),
    ("packet", .field .packet), ("packet16", .field .packet16), ("packet32", .field .packet32),
    ("parentEndpointId", .field .parentEndpointId), ("priority", .field .priority),
    ("processId", .field .processId), ("protocol", .field .protocol),
    ("random16", .field .random16), ("random32", .field .random32), ("random8", .field .random8),
    ("remoteAddr", .field .remoteAddr), ("remotePort", .field .remotePort),
    ("subIfIdx", .field .subIfIdx), ("tcp", .field .tcp), ("tcp.Ack", .field .tcpAck),
    ("tcp.AckNum", .field .tcpAckNum), ("tcp.Checksum", .field .tcpChecksum),
    ("tcp.DstPort", .field .tcpDstPort), ("tcp.Fin", .field .tcpFin),
    ("tcp.HdrLength", .field .tcpHdrLength), ("tcp.Payload", .field .tcpPayload),
    ("tcp.Payload16", .field .tcpPayload16), ("tcp.Payload32", .field .tcpPayload32),
    ("tcp.PayloadLength", .field .tcpPayloadLength), ("tcp.Psh", .field .tcpPsh),
    ("tcp.Rst", .field .tcpRst), ("tcp.SeqNum", .field .tcpSeqNum),
    ("tcp.SrcPort", .field .tcpSrcPort), ("tcp.Syn", .field .tcpSyn), ("tcp.Urg", .field .tcpUrg),
    ("tcp.UrgPtr", .field .tcpUrgPtr), ("tcp.Window", .field .tcpWindow),
    ("timestamp", .field .timestamp), ("true", .true), ("udp", .field .udp),
    ("udp.Checksum", .field .udpChecksum), ("udp.DstPort", .field .udpDstPort),
    ("udp.Length", .field .udpLength), ("udp.Payload", .field .udpPayload),
    ("udp.Payload16", .field .udpPayload16), ("udp.Payload32", .field .udpPayload32),
    ("udp.PayloadLength", .field .udpPayloadLength), ("udp.SrcPort", .field .udpSrcPort),
    ("zero", .field .zero) ]

def tokenInfo : List (CString × Kind) :=
  tokenNames.map fun (name, kind) => (name.toList, kind)

-- The characters of a word have codes below 128, where `char` has no sign.
def strCmp : CString → CString → Ordering
  | [],     []     => .eq
  | [],     _ :: _ => .lt
  | _ :: _, []     => .gt
  | c :: s, d :: t => if c = d then strCmp s t else compare c.toNat d.toNat

def tokenLookup (name : CString) : Option Kind :=
  (BinarySearch.find (strCmp ·.1 name) tokenInfo).map (·.2)

def isWordChar (c : Char) : Bool :=
  c.isAlphanum || c = '.' || c = ':' || c = '_'

-- What a word is that is not in the table: a `b` alone is nothing at all. There is no result where
-- an address is read from memory that does not belong to it.
def literal (token : CString) : Option (Except ErrorCode (List Kind)) :=
  if token = ['b'] then some (.ok []) else
  match aToI token with
  | some (n, [])    => some (.ok [.number n])
  | some (n, ['b']) => some (.ok [.number n, .bytes])
  | _               =>
    match aToX true token with
    | some (n, []) => some (.ok [.number n])
    | _            =>
      match parseIPv4Address token with
      | some addr => some (.ok [.number (.mapped addr)])
      | none      => (parseIPv6Address token).map fun
        | some addr => .ok [.number addr]
        | none      => .error .badToken

def word (layer : Layer) (token : CString) : Option (Except ErrorCode (List Kind)) :=
  match tokenLookup token with
  | none            => literal token
  | some (.field f) => some (if validateField layer f then .ok [.field f] else .error .badTokenForLayer)
  | some (.named m) => some (.ok [(expandMacro m layer).elim (.named m) (.number ∘ .ofNarrow)])
  | some kind       => some (.ok [kind])

end Words

section Tokens

def tokenMaxlen : Nat := 40

def tokensMax : Nat := 5 * filterMaxLen - 1

-- A token that is not a word, and what follows it.
def symbol : CString → Option (Kind × CString)
  | '(' :: str        => some (.roundOpen, str)
  | ')' :: str        => some (.roundClose, str)
  | '[' :: str        => some (.squareOpen, str)
  | ']' :: str        => some (.squareClose, str)
  | '-' :: str        => some (.minus, str)
  | '!' :: '=' :: str => some (.neq, str)
  | '!' :: str        => some (.not, str)
  | '=' :: '=' :: str => some (.eq, str)
  | '=' :: str        => some (.eq, str)
  | '<' :: '=' :: str => some (.leq, str)
  | '<' :: str        => some (.lt, str)
  | '>' :: '=' :: str => some (.geq, str)
  | '>' :: str        => some (.gt, str)
  | ':' :: ':' :: _   => none
  | ':' :: str        => some (.colon, str)
  | '?' :: str        => some (.question, str)
  | '&' :: '&' :: str => some (.and, str)
  | '|' :: '|' :: str => some (.or, str)
  | _                 => none

-- A colon at the end of a word does not belong to it unless there are two.
def wordName (token : CString) : CString :=
  if token.getLast? = some ':' ∧ token.dropLast.getLast? ≠ some ':' then token.dropLast else token

-- What one round of the loop leads to. `wild` is a read of memory that does not belong to the word.
inductive Lexed
  | wild
  | error (e : Error)
  | last (tok : Token)
  | next (toks : List Token) (i : Nat) (str : CString)

-- The unit that follows a number directly gets no position.
def place (i : Nat) : List Kind → List Token
  | []            => []
  | kind :: kinds => ⟨kind, some i⟩ :: kinds.map (⟨·, none⟩)

-- The position of an error is what has been taken of the string less the length of the word, where
-- the colon has been given back but still counts. It has 32 bits.
def lexWord (layer : Layer) (i : Nat) (str : CString) : Lexed :=
  let token := str.takeWhile isWordChar
  if tokenMaxlen ≤ token.length then .error ⟨.badToken, some i⟩ else
  let next := i + (wordName token).length
  match word layer (wordName token) with
  | none             => .wild
  | some (.error e)  => .error ⟨e, some ((next + 2 ^ 32 - token.length) % 2 ^ 32)⟩
  | some (.ok kinds) => .next (place i kinds) next (str.drop (wordName token).length)

-- `str` is what is left of the string behind the position `i`.
def lex (layer : Layer) (i : Nat) (str : CString) : Lexed :=
  match str with
  | []     => .last ⟨.eof, some i⟩
  | c :: _ =>
    match symbol str with
    | some (kind, rest) => .next [⟨kind, some i⟩] (i + (str.length - rest.length)) rest
    | none              => if isWordChar c then lexWord layer i str else .error ⟨.badToken, some (i + 1)⟩

-- The token behind the blanks.
def nextToken (layer : Layer) (i : Nat) (str : CString) : Lexed :=
  let rest := str.dropWhile CString.isSpace
  lex layer (i + (str.length - rest.length)) rest

-- Every round takes a character, so that one more than their number is enough fuel. `tp` tokens have
-- been written.
def tokenizeFrom (layer : Layer) : (fuel i tp : Nat) → CString → Option (Except Error (List Token))
  | 0,        _, _,  _   => none
  | fuel + 1, i, tp, str =>
    if tokensMax - 1 ≤ tp then some (.error ⟨.tooLong, some i⟩) else
    match nextToken layer i str with
    | .wild             => none
    | .error e          => some (.error e)
    | .last tok         => some (.ok [tok])
    | .next toks i rest => (tokenizeFrom layer fuel i (tp + toks.length) rest).map (·.map (toks ++ ·))

def tokenizeFilter (layer : Layer) (filter : CString) : Option (Except Error (List Token)) :=
  tokenizeFrom layer (filter.length + 1) 0 0 filter

end Tokens

end Wd.Text
