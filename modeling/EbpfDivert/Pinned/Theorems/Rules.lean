import EbpfDivert.Pinned.Rules
import Mathlib.Tactic.SplitIfs

open Shared CString

namespace Pinned

variable {α β ε : Type} {libc : Libc} {fam : Family α} {r : FilterRule α} {opt : RuleOpt}

theorem bind_eq_ok {x : Except ε α} {f : α → Except ε β} {b : β} :
    x >>= f = .ok b ↔ ∃ a, x = .ok a ∧ f a = .ok b := by
  cases x <;> simp [bind, Except.bind]

section Steps

variable {ρ σ : Type} {P : (ρ → σ) → Prop} {skip : ρ → σ} {set : CString → ρ → σ}
variable {val : Option CString} {s : CString}

theorem isOptionActive_none : isOptionActive none = false := rfl

theorem isOptionActive_nil : isOptionActive (some []) = false := rfl

theorem isOptionActive_some : isOptionActive (some s) ↔ s ≠ "any".toList ∧ s ≠ [] := by
  simp [isOptionActive]

theorem whenActive_of_active (h : isOptionActive (some s)) : whenActive (some s) skip set = set s :=
  if_pos h

theorem whenActive_of_inactive (h : isOptionActive val = false) : whenActive val skip set = skip :=
  if_neg (by simp [h])

theorem unlessAny_any : unlessAny "any".toList skip set = skip :=
  if_pos rfl

theorem unlessAny_of_ne (h : s ≠ "any".toList) : unlessAny s skip set = set s :=
  if_neg h

-- The two calls only take an empty option in different ways.
theorem whenActive_eq_unlessAny (h : s ≠ []) :
    whenActive (some s) skip set = unlessAny s skip set := by
  by_cases ha : s = "any".toList
  case pos =>
    subst ha
    rw [whenActive_of_inactive rfl, unlessAny_any]
  case neg => rw [whenActive_of_active (isOptionActive_some.mpr ⟨ha, h⟩), unlessAny_of_ne ha]

theorem whenActive_cases (h : P skip) (hf : ∀ s, P (set s)) : P (whenActive val skip set) := by
  rw [whenActive]
  cases val <;> split_ifs
  all_goals first | exact h | exact hf _

theorem unlessAny_cases (h : P skip) (hf : ∀ s, P (set s)) : P (unlessAny s skip set) := by
  rw [unlessAny]
  split_ifs
  case pos => exact h
  case neg => exact hf _

end Steps

-- The protocols that a family knows by name.
def Family.names (fam : Family α) : List CString :=
  ["tcp".toList, "udp".toList, fam.icmpName]

theorem Family.forall_names {P : CString → Prop} : (∀ name ∈ fam.names, P name) ↔
    P "tcp".toList ∧ P "udp".toList ∧ P fam.icmpName := by
  simp only [names, List.mem_cons, List.not_mem_nil, or_false, forall_eq_or_imp, forall_eq]

-- What the proofs use of a family.
structure Family.Lawful (fam : Family α) : Prop where
  uninverted    : fam.zero.invertMask = 0
  icmp_ne       : fam.icmp ≠ 0
  parseCidr_nil : ∃ e, fam.parseCidr [] = .error e
  -- The names are words in small letters.
  lower         : ∀ name ∈ fam.names, name.map Char.toLower = name
  word          : ∀ name ∈ fam.names, name.head?.any Char.isLower
  -- The name of ICMP stands for its number and is not taken for a missing option.
  short         : protoCode fam (· == ·) fam.icmpName = fam.icmp
  extended      : protoCode fam sameUpToCase fam.icmpName = fam.icmp
  active        : isOptionActive (some fam.icmpName)

theorem ipv4_lawful : (ipv4 libc).Lawful where
  uninverted    := rfl
  icmp_ne       := by simp [ipv4]
  parseCidr_nil := ⟨.invalidAddress [], by
    simp [ipv4, parseCidrIpv4, parseCidr, cut, copied, libc.inetAddr_nil]⟩
  lower         := show ∀ name ∈ ["tcp".toList, "udp".toList, "icmp".toList], _ by decide
  word          := show ∀ name ∈ ["tcp".toList, "udp".toList, "icmp".toList], _ by decide
  short         := rfl
  extended      := rfl
  active        := rfl

theorem ipv6_lawful : (ipv6 libc).Lawful where
  uninverted    := rfl
  icmp_ne       := by simp [ipv6]
  parseCidr_nil := ⟨.invalidAddress [], by
    simp [ipv6, parseCidrIpv6, parseCidr, cut, copied, libc.inetPton6_nil]⟩
  lower         := show ∀ name ∈ ["tcp".toList, "udp".toList, "icmpv6".toList], _ by decide
  word          := show ∀ name ∈ ["tcp".toList, "udp".toList, "icmpv6".toList], _ by decide
  short         := rfl
  extended      := rfl
  active        := rfl

section Enabled

def Enabled (mask : BitVec 16) : Prop :=
  Flags.has mask matchEnabled

theorem Enabled.ne_zero {mask : BitVec 16} (h : Enabled mask) : mask ≠ 0 := by
  rintro rfl
  simp [Enabled] at h

-- A step of a call that takes no bit out of the mask of the rule.
def Keeps (f : FilterRule α → FilterRule α) : Prop :=
  ∀ r, ∃ m, (f r).matchMask = r.matchMask ||| m

-- The same for a step that can fail.
def KeepsOk (f : FilterRule α → Except RuleError (FilterRule α)) : Prop :=
  ∀ r r', f r = .ok r' → ∃ m, r'.matchMask = r.matchMask ||| m

theorem Enabled.or {mask mask' : BitVec 16} (h : Enabled mask) (hm : ∃ m, mask' = mask ||| m) :
    Enabled mask' := by
  obtain ⟨m, rfl⟩ := hm
  rw [Enabled] at *
  simp [h]

theorem keeps_id : Keeps (id : FilterRule α → FilterRule α) :=
  fun _ => ⟨0, BitVec.or_zero.symm⟩

theorem keepsOk_ok : KeepsOk (.ok : FilterRule α → _) := by
  rintro r _ ⟨⟩
  exact keeps_id r

theorem keeps_setDstPort {s : CString} : Keeps (setDstPort fam s) := by
  intro r
  rw [setDstPort]
  split_ifs
  all_goals exact ⟨_, rfl⟩

theorem keeps_addSrcPort {range : Option CString} : Keeps (addSrcPort fam range) := by
  intro r
  rw [addSrcPort]
  split_ifs
  case pos => exact keeps_id r
  case neg => exact whenActive_cases (P := Keeps) keeps_id (fun _ _ => ⟨_, rfl⟩) r

theorem keepsOk_setSrcIp {s : CString} : KeepsOk (setSrcIp fam s) := by
  intro r r' h
  obtain ⟨_, _, h⟩ := bind_eq_ok.mp h
  cases h
  exact ⟨_, rfl⟩

theorem keepsOk_setDstIp {s : CString} : KeepsOk (setDstIp fam s) := by
  intro r r' h
  obtain ⟨_, _, h⟩ := bind_eq_ok.mp h
  cases h
  exact ⟨_, rfl⟩

theorem Keeps.enabled {f : FilterRule α → FilterRule α} (hf : Keeps f) (h : Enabled r.matchMask) :
    Enabled (f r).matchMask :=
  h.or (hf r)

theorem KeepsOk.enabled {f : FilterRule α → Except RuleError (FilterRule α)} {r' : FilterRule α}
    (hf : KeepsOk f) (h : Enabled r.matchMask) (hr : f r = .ok r') : Enabled r'.matchMask :=
  h.or (hf r r' hr)

theorem enabled_extendedRule (h : extendedRule fam opt = .ok r) : Enabled r.matchMask := by
  obtain ⟨r₁, hs, h⟩ := bind_eq_ok.mp h
  obtain ⟨r₂, hd, h⟩ := bind_eq_ok.mp h
  cases h
  have keeps {val : Option CString} {set : CString → FilterRule α → FilterRule α}
      (h : ∀ s, Keeps (set s)) : Keeps (whenActive val id set) := whenActive_cases keeps_id h
  have ha : Keeps (opt.action.elim id setAction : FilterRule α → _) := by
    cases opt.action
    case none   => exact keeps_id
    case some _ => exact fun _ => ⟨_, rfl⟩
  have h₁ : Enabled r₁.matchMask := by
    refine (whenActive_cases keepsOk_ok fun _ => keepsOk_setSrcIp).enabled (ha.enabled ?_) hs
    exact (keeps fun _ _ => ⟨_, rfl⟩).enabled (by simp [Enabled, enabledRule])
  have h₂ : Enabled r₂.matchMask :=
    (whenActive_cases keepsOk_ok fun _ => keepsOk_setDstIp).enabled h₁ hd
  -- What is left cannot fail.
  refine (keeps fun _ _ => ⟨_, rfl⟩).enabled <| (keeps fun _ _ => ⟨_, rfl⟩).enabled <|
    (keeps fun _ _ => ⟨_, rfl⟩).enabled <| (keeps fun _ _ => ⟨_, rfl⟩).enabled <| ?_
  exact (keeps fun _ => keeps_setDstPort).enabled (keeps_addSrcPort.enabled h₂)

theorem enabled_shortRule {proto ip port action : CString}
    (h : shortRule fam proto ip port action = .ok r) : Enabled r.matchMask := by
  obtain ⟨r₁, hd, h⟩ := bind_eq_ok.mp h
  cases h
  have h₁ : Enabled r₁.matchMask := by
    refine (unlessAny_cases keepsOk_ok fun _ => keepsOk_setDstIp).enabled ?_ hd
    refine Keeps.enabled (f := setAction action) (fun _ => ⟨_, rfl⟩) ?_
    exact (unlessAny_cases keeps_id fun _ _ => ⟨_, rfl⟩).enabled (by simp [Enabled, enabledRule])
  exact (unlessAny_cases keeps_id fun _ => keeps_setDstPort).enabled h₁

end Enabled

-- An action sets no other bits than those for drop and sniff.
theorem has_actionMask {action : CString} {i : Nat} (hi : i < 16) (h : i ≠ 9 ∧ i ≠ 10) :
    Flags.has (actionMask action) (Flags.bit 16 i) = false := by
  rw [actionMask]
  split_ifs <;> simp [hi, h.1.symm, h.2.symm]

section Calls

variable {env : MapEnv} {idx : Int} {isIpv6 : Bool} {w : Write}
variable {build : {α : Type} → Family α → Except RuleError (FilterRule α)}

-- What a call that succeeds has written.
inductive Added (libc : Libc) (isIpv6 : Bool)
    (build : {α : Type} → Family α → Except RuleError (FilterRule α)) : Write → Prop
  | v4 {i r} (hv : isIpv6 = false) (hr : build (ipv4 libc) = .ok r) :
    Added libc isIpv6 build (.v4 i r)
  | v6 {i r} (hv : isIpv6 = true) (hr : build (ipv6 libc) = .ok r) :
    Added libc isIpv6 build (.v6 i r)

theorem commit_eq_ok {updates : Bool} {write : FilterRule α → Write}
    {rule : Except RuleError (FilterRule α)} (h : commit updates write rule = .ok w) :
    ∃ r, rule = .ok r ∧ w = write r := by
  obtain ⟨r, hr, h⟩ := bind_eq_ok.mp h
  split_ifs at h
  cases h
  exact ⟨r, hr, rfl⟩

theorem addRule_added (h : addRule libc env idx isIpv6 build = .ok w) :
    Added libc isIpv6 build w := by
  rw [addRule] at h
  split_ifs at h with _ _ hv
  case pos =>
    obtain ⟨r, hr, rfl⟩ := commit_eq_ok h
    exact .v6 hv hr
  case neg =>
    obtain ⟨r, hr, rfl⟩ := commit_eq_ok h
    exact .v4 (by simpa using hv) hr

def Write.mask : Write → BitVec 16
  | v4 _ rule | v6 _ rule => rule.matchMask

theorem Added.enabled (h : Added libc isIpv6 build w)
    (hb : ∀ {α : Type} {fam : Family α} {r}, build fam = .ok r → Enabled r.matchMask) :
    Enabled w.mask := by
  cases h
  case v4 hr => exact hb hr
  case v6 hr => exact hb hr

theorem enabled_run {c : Call} (h : c.run libc = .ok w) : Enabled w.mask := by
  cases c
  case add env idx proto ip port action =>
    rw [Call.run, rulesAdd.eq_def] at h
    split at h
    case h_1 => exact (addRule_added h).enabled enabled_shortRule
    case h_2 => cases h
  case addExtended env idx opt =>
    cases opt
    case none   => cases h
    case some _ =>
      rw [Call.run, rulesAddExtended] at h
      exact (addRule_added h).enabled enabled_extendedRule

end Calls

-- A library that knows no addresses.
def noAddresses : Libc :=
  ⟨fun _ => inaddrNone, fun _ => none, rfl, rfl⟩

def allOk : MapEnv :=
  ⟨fun _ => true, fun _ => true⟩

end Pinned
