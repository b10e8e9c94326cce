import EbpfDivert.Primitives.Flags
import EbpfDivert.Wd.Execute

open Flags (flagIf)

-- What a compiled filter can accept at all (`WinDivertAnalyzeFilter`).
namespace Wd

abbrev filterFlagInbound            := Flags.bit 64 4
abbrev filterFlagOutbound           := Flags.bit 64 5
abbrev filterFlagIp                 := Flags.bit 64 6
abbrev filterFlagIpv6               := Flags.bit 64 7
abbrev filterFlagEventFlowDeleted   := Flags.bit 64 8
abbrev filterFlagEventSocketBind    := Flags.bit 64 9
abbrev filterFlagEventSocketConnect := Flags.bit 64 10
abbrev filterFlagEventSocketListen  := Flags.bit 64 11
abbrev filterFlagEventSocketAccept  := Flags.bit 64 12
abbrev filterFlagEventSocketClose   := Flags.bit 64 13

-- Whether a label may lead to acceptance. `results` has the answers for the instructions behind the
-- one at `ip`, and a label that does not lead there is not followed.
def condLabel (ip : Nat) (results : List Bool) (label : Nat) : Bool :=
  if label = resultAccept then true
  else if label = resultReject then false
  else if ip < label then results.getD (label - (ip + 1)) true
  else true

-- Only a test of the field that the assumption is about is evaluated.
def condInsn (field : Field) (arg : BitVec 32) (insn : Insn) (succ fail : Bool) : Bool :=
  if succ && fail then true
  else if !succ && !fail then false
  else if insn.field = field then
    if insn.neg ∨ insn.arg.word 1 ≠ 0 ∨ insn.arg.word 2 ≠ 0 ∨ insn.arg.word 3 ≠ 0 then true
    else match insn.test.holds (compare arg.toNat (insn.arg.word 0).toNat) with
      | none        => true
      | some result => if result then succ else fail
  else true

-- The answers for the instructions from `ip` on, from the last one to the first.
def condResults (field : Field) (arg : BitVec 32) : (ip : Nat) → List Insn → List Bool
  | _,  []             => []
  | ip, insn :: object =>
    let results := condResults field arg (ip + 1) object
    condInsn field arg insn (condLabel ip results insn.success) (condLabel ip results insn.failure) ::
      results

-- Whether the filter may accept something where `field` has the value `arg`.
def condExecFilter (object : List Insn) (field : Field) (arg : BitVec 32) : Bool :=
  (condResults field arg 0 object).headD true

-- The flags of the events that occur on a layer.
def eventFlags (layer : Layer) (object : List Insn) : BitVec 64 :=
  match layer with
  | .flow   => flagIf (condExecFilter object .event eventFlowDeleted) filterFlagEventFlowDeleted
  | .socket =>
    flagIf (condExecFilter object .event eventSocketBind) filterFlagEventSocketBind |||
    flagIf (condExecFilter object .event eventSocketConnect) filterFlagEventSocketConnect |||
    flagIf (condExecFilter object .event eventSocketClose) filterFlagEventSocketClose |||
    flagIf (condExecFilter object .event eventSocketListen) filterFlagEventSocketListen |||
    flagIf (condExecFilter object .event eventSocketAccept) filterFlagEventSocketAccept
  | _       => 0

def analyzeFilter (layer : Layer) (object : List Insn) : BitVec 64 :=
  if !condExecFilter object .zero 0 then 0 else
  let network := decide (layer = .network ∨ layer = .networkForward)
  let packets := decide (layer ≠ .reflect)
  flagIf (network && condExecFilter object .inbound 1 && condExecFilter object .outbound 0)
    filterFlagInbound |||
  flagIf (network && condExecFilter object .outbound 1 && condExecFilter object .inbound 0)
    filterFlagOutbound |||
  flagIf (packets && condExecFilter object .ip 1 && condExecFilter object .ipv6 0) filterFlagIp |||
  flagIf (packets && condExecFilter object .ipv6 1 && condExecFilter object .ip 0) filterFlagIpv6 |||
  eventFlags layer object

end Wd
