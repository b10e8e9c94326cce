import EbpfDivert.Handle.Basic
import EbpfDivert.Kernel.Match
import EbpfDivert.Prefilter.Lower

open Shared Prefilter

namespace Handle

-- The action of every rule. A lowering that is not exact must not drop: the filter has the last
-- word.
def action (flags : BitVec 64) (exact : Bool) : BitVec 16 :=
  if Flags.has flags flagSniff then matchSniff
  else if Flags.has flags flagDrop && exact then matchDrop
  else 0

def withAction {α : Type} (action : BitVec 16) (r : FilterRule α) : FilterRule α :=
  { r with matchMask := r.matchMask ||| action }

-- An array map after the rules have been stored: the other entries are zero.
def table {α : Type} (zero : FilterRule α) (action : BitVec 16) (rules : List (FilterRule α)) :
    List (FilterRule α) :=
  rules.map (withAction action) ++ .replicate (maxRules - rules.length) zero

-- The maps of a handle. Nothing is ever stored in its tries.
def tables (res : PfResult) (action : BitVec 16) : Kernel.Tables where
  v4    := table .v4Zero action res.v4
  v6    := table .v6Zero action res.v6
  trie4 := fun _ => none
  trie6 := fun _ => none

-- The maps are taken to be there and their updates to succeed.
def loadRules (h : Handle) : Option (Kernel.Tables × Handle) := do
  let res ← pfLower h.filter
  some (tables res (action h.flags res.exact), { h with exact := res.exact })

end Handle
