import EbpfDivert.Wd.Text.Tokens

-- From filter strings to compiled filters.
namespace Wd.Text

-- There is no result where a null pointer is dereferenced.
def compileExpr (expr : Expr) : Option (Except Error (List Insn)) :=
  (flattenExpr expr (some resultAccept) (some resultReject) []).map fun
    | (none, _)           => .error ⟨.tooLong, some 0⟩
    | (some label, stack) => .ok (emitFilter stack label)

def compileTokens (toks : List Token) : Option (Except Error (List Insn)) :=
  match parse toks with
  | .error e => some (.error e)
  | .ok expr => compileExpr expr

-- The bytes of a string with its terminator.
def toBytes (str : CString) : Bytes :=
  str.map chr ++ [0]

-- A string that starts with `@` is a filter that has been compiled before. There is no result where
-- the behaviour is not defined.
def compileFilter (layer : Layer) (filter : CString) : Option (Except Error (List Insn)) :=
  if filter.head? = some '@' then
    some (match deserializeFilter.run (toBytes filter) with
      | none             => .error ⟨.badObject, some 0⟩
      | some (object, _) => .ok object)
  else
    match tokenizeFilter layer filter with
    | none             => none
    | some (.error e)  => some (.error e)
    | some (.ok toks)  => compileTokens toks

-- `wd_eval_filter_string`. The inner result is none for `-EINVAL`.
def evalFilterString (hash : BitVec 64) (filter : CString) (packet : Option Bytes) (addr : Address) :
    Option (Option Bool) :=
  let run := fun (packet : Bytes) (info : Option PacketInfo) =>
    match compileFilter addr.layer filter with
    | none              => none
    | some (.error _)   => some none
    | some (.ok object) => some (executeFilter object (addr.input hash packet info))
  match addr.layer, packet with
  | .network, some packet | .networkForward, some packet =>
    match parsePacketEx packet with
    | none      => some none
    | some info =>
      if (addr.ipv6 ∧ info.ipv6Header.isNone) ∨ (¬addr.ipv6 ∧ info.ipHeader.isNone) then some none
      else run packet info
  | .network, none | .networkForward, none => some none
  | .flow, some _ | .socket, some _ => some none
  | .flow, none | .socket, none => run [] none
  | .reflect, packet => run (packet.getD []) none

end Wd.Text
