import EbpfDivert.Pinned.Theorems.Rules

open Shared CString

-- The short call against the extended one with the same options.
namespace Pinned

-- The options that the short call knows.
def shortOpt (proto ipCidr portRange action : CString) : RuleOpt where
  proto        := some proto
  srcIpCidr    := none
  dstIpCidr    := some ipCidr
  srcPortRange := none
  dstPortRange := some portRange
  action       := some action
  direction    := none
  loopback     := none
  ttl          := none
  tcpFlags     := none
  tcpFlagsMask := none
  invertMask   := 0

-- Both calls fail, or both make the same update.
inductive SameEffect : Except RuleError Write → Except RuleError Write → Prop
  | fail {e e' : RuleError} : SameEffect (.error e) (.error e')
  | write {w : Write} : SameEffect (.ok w) (.ok w)

variable {α : Type} {fam : Family α} {libc : Libc} {r : FilterRule α}
variable {proto ip port action name : CString}

section Names

-- A name in letters of the other case.
def CaseVariant (fam : Family α) (proto : CString) : Prop :=
  ∃ name ∈ fam.names, sameUpToCase proto name ∧ proto ≠ name

theorem CaseVariant.lower_ne (hf : fam.Lawful) (h : CaseVariant fam proto) :
    proto.map Char.toLower ≠ proto := by
  obtain ⟨name, hn, hs, hne⟩ := h
  rw [sameUpToCase, hf.lower name hn, beq_iff_eq] at hs
  exact fun h => hne (h.symm.trans hs)

-- Names that only differ in case are numbers of no protocol.
theorem atoi_of_sameUpToCase (hf : fam.Lawful) (hn : name ∈ fam.names)
    (h : sameUpToCase proto name) : atoi proto = 0 := by
  obtain ⟨c, hc, hl⟩ := (Option.any_eq_true ..).mp (hf.word name hn)
  rw [sameUpToCase, hf.lower name hn, beq_iff_eq] at h
  cases proto
  case nil => simp [← h] at hc
  case cons d s =>
    have hd : d.toLower = c := by simpa [← h] using hc
    exact atoi_of_isAlpha (isAlpha_of_toLower (hd ▸ hl))

theorem protoCode_of_caseVariant (hf : fam.Lawful) (h : CaseVariant fam proto) :
    protoCode fam (· == ·) proto ≠ protoCode fam sameUpToCase proto := by
  have hp : ∀ name ∈ fam.names, proto ≠ name := by
    rintro _ hn rfl
    exact h.lower_ne hf (hf.lower _ hn)
  obtain ⟨name, hn, hs, _⟩ := h
  have hz : protoCode fam (· == ·) proto = 0 := by
    have ⟨h₁, h₂, h₃⟩ := Family.forall_names.mp hp
    rw [protoCode, if_neg (by simpa using h₁), if_neg (by simpa using h₂),
      if_neg (by simpa using h₃), atoi_of_sameUpToCase hf hn hs]
    rfl
  have hc : protoCode fam sameUpToCase proto ≠ 0 := by
    rw [protoCode]
    split_ifs with h₁ h₂ h₃
    case pos => decide
    case pos => decide
    case pos => exact hf.icmp_ne
    case neg =>
      have hno : ∀ name ∈ fam.names, ¬sameUpToCase proto name :=
        Family.forall_names.mpr ⟨h₁, h₂, h₃⟩
      exact absurd hs (hno name hn)
  exact fun h => hc (h.symm.trans hz)

theorem sameUpToCase_eq (h : ¬CaseVariant fam proto) (hn : name ∈ fam.names) :
    sameUpToCase proto name = (proto == name) := by
  rw [Bool.eq_iff_iff, beq_iff_eq]
  constructor
  case mp =>
    intro hs
    by_contra hne
    exact h ⟨name, hn, hs, hne⟩
  case mpr =>
    rintro rfl
    simp [sameUpToCase]

theorem protoCode_eq (h : ¬CaseVariant fam proto) :
    protoCode fam (· == ·) proto = protoCode fam sameUpToCase proto := by
  have ⟨h₁, h₂, h₃⟩ := Family.forall_names.mp fun _ => sameUpToCase_eq h
  simp only [protoCode, h₁, h₂, h₃]

end Names

section Build

-- The protocol and the action of a rule, as either call puts them in.
def shortHead (fam : Family α) (proto action : CString) : FilterRule α :=
  setAction action (unlessAny proto id (setProto fam (· == ·)) (enabledRule fam))

def extendedHead (fam : Family α) (proto action : CString) : FilterRule α :=
  setAction action (whenActive (some proto) id (setProto fam sameUpToCase) (enabledRule fam))

theorem shortRule_eq : shortRule fam proto ip port action =
    unlessAny ip .ok (setDstIp fam) (shortHead fam proto action) >>= fun r =>
      .ok (unlessAny port id (setDstPort fam) r) := rfl

theorem extendedRule_eq : extendedRule fam (shortOpt proto ip port action) =
    whenActive (some ip) .ok (setDstIp fam) (extendedHead fam proto action) >>= fun r =>
      .ok { whenActive (some port) id (setDstPort fam) r with invertMask := 0 } := by
  have ha (r : FilterRule α) : addSrcPort fam none r = r := by
    simp [addSrcPort, whenActive_of_inactive isOptionActive_none]
  simp only [extendedRule, shortOpt, whenActive_of_inactive isOptionActive_none, ha]
  rfl

-- The address of a rule, if it has one.
def withDst (d : Option (α × α)) (r : FilterRule α) : FilterRule α :=
  d.elim r fun (ip, mask) =>
    { r with matchMask := r.matchMask ||| matchDstIp, dstIp := ip, dstMask := mask }

def BadCidr (fam : Family α) (ip : CString) : Prop :=
  ip ≠ "any".toList ∧ ∃ e, fam.parseCidr ip = .error e

-- Whether the address can be read does not depend on the rest of the rule.
theorem setDstIp_cases (fam : Family α) (ip : CString) :
    (BadCidr fam ip ∧ ∀ r, ∃ e, unlessAny ip .ok (setDstIp fam) r = .error e) ∨
    (¬BadCidr fam ip ∧ ∃ d, ∀ r, unlessAny ip .ok (setDstIp fam) r = .ok (withDst d r)) := by
  by_cases ha : ip = "any".toList
  case pos =>
    refine .inr ⟨fun h => h.1 ha, none, fun r => ?_⟩
    rw [unlessAny, if_pos ha]
    rfl
  case neg =>
    simp only [unlessAny, if_neg ha, BadCidr, setDstIp]
    cases hp : fam.parseCidr ip
    case error e => exact .inl ⟨⟨ha, e, rfl⟩, fun r => ⟨e, rfl⟩⟩
    case ok d    => exact .inr ⟨by simp, some d, fun r => rfl⟩

-- A step that leaves the protocol and the inverted fields alone.
structure KeepsProto (f : FilterRule α → FilterRule α) : Prop where
  proto      : ∀ r, (f r).proto = r.proto
  hasProto   : ∀ r, Flags.has (f r).matchMask matchProto = Flags.has r.matchMask matchProto
  invertMask : ∀ r, (f r).invertMask = r.invertMask

theorem keepsProto_id : KeepsProto (id : FilterRule α → FilterRule α) :=
  ⟨fun _ => rfl, fun _ => rfl, fun _ => rfl⟩

theorem keepsProto_setDstPort {s : CString} : KeepsProto (setDstPort fam s) := by
  constructor
  all_goals
    intro r
    rw [setDstPort]
    split_ifs
    all_goals simp

theorem keepsProto_withDst {d : Option (α × α)} : KeepsProto (withDst d) := by
  cases d
  case none   => exact keepsProto_id
  case some _ => exact ⟨fun _ => rfl, fun _ => by simp [withDst], fun _ => rfl⟩

theorem head_eq (hp : proto ≠ []) (hv : ¬CaseVariant fam proto) :
    shortHead fam proto action = extendedHead fam proto action := by
  have hs : setProto fam (· == ·) proto = setProto fam sameUpToCase proto := by
    funext r
    simp only [setProto, protoCode_eq hv]
  simp only [shortHead, extendedHead, whenActive_eq_unlessAny hp, unlessAny, hs]

theorem CaseVariant.ne_any (hf : fam.Lawful) (h : CaseVariant fam proto) :
    proto ≠ "any".toList := by
  rintro rfl
  exact h.lower_ne hf rfl

-- The rules differ in whether the protocol is compared, or in its number.
theorem head_ne (hf : fam.Lawful) (hp : proto ≠ [] → CaseVariant fam proto) :
    (shortHead fam proto action).proto ≠ (extendedHead fam proto action).proto ∨
    Flags.has (shortHead fam proto action).matchMask matchProto ≠
      Flags.has (extendedHead fam proto action).matchMask matchProto := by
  by_cases hn : proto = []
  case pos =>
    subst hn
    rw [shortHead, extendedHead, unlessAny_of_ne (by decide),
      whenActive_of_inactive isOptionActive_nil]
    exact .inr (by simp [setAction, setProto, enabledRule, has_actionMask])
  case neg =>
    have hv := hp hn
    rw [shortHead, extendedHead, whenActive_eq_unlessAny hn, unlessAny_of_ne (hv.ne_any hf),
      unlessAny_of_ne (hv.ne_any hf)]
    exact .inl (protoCode_of_caseVariant hf hv)

theorem extendedHead_cases : extendedHead fam proto action = setAction action (enabledRule fam) ∨
    extendedHead fam proto action =
      setAction action (setProto fam sameUpToCase proto (enabledRule fam)) := by
  rw [extendedHead, whenActive]
  split_ifs
  case pos => exact .inr rfl
  case neg => exact .inl rfl

theorem invertMask_extendedHead (hf : fam.Lawful) :
    (extendedHead fam proto action).invertMask = 0 := by
  rw [← hf.uninverted]
  rcases extendedHead_cases with h | h <;> rw [h] <;> rfl

theorem has_dstPort_extendedHead {d : Option (α × α)} :
    Flags.has (withDst d (extendedHead fam proto action)).matchMask matchDstPort = false := by
  have hh : Flags.has (extendedHead fam proto action).matchMask matchDstPort = false := by
    rcases extendedHead_cases with h | h <;> rw [h]
    all_goals simp [setAction, setProto, enabledRule, has_actionMask]
  cases d
  case none   => exact hh
  case some _ => simp [withDst, hh]

theorem has_dstPort_setDstPort {s : CString} :
    Flags.has (setDstPort fam s r).matchMask matchDstPort := by
  rw [setDstPort]
  split_ifs
  all_goals simp

theorem tail_eq_iff (hf : fam.Lawful) {d : Option (α × α)} :
    unlessAny port id (setDstPort fam) (withDst d (shortHead fam proto action)) =
      { whenActive (some port) id (setDstPort fam) (withDst d (extendedHead fam proto action)) with
        invertMask := 0 } ↔
    proto ≠ [] ∧ port ≠ [] ∧ ¬CaseVariant fam proto := by
  have hd : KeepsProto (withDst d) := keepsProto_withDst
  have hs : KeepsProto (unlessAny port id (setDstPort fam)) :=
    unlessAny_cases keepsProto_id fun _ => keepsProto_setDstPort
  have he : KeepsProto (whenActive (some port) id (setDstPort fam)) :=
    whenActive_cases keepsProto_id fun _ => keepsProto_setDstPort
  constructor
  case mp =>
    intro h
    have hp : proto ≠ [] ∧ ¬CaseVariant fam proto := by
      by_contra hc
      have hc : proto ≠ [] → CaseVariant fam proto := by tauto
      have hn : (shortHead fam proto action).proto ≠ _ ∨ _ := head_ne hf hc
      rcases hn with hn | hn
      case inl =>
        apply hn
        simpa [hs.proto, he.proto, hd.proto] using congrArg (·.proto) h
      case inr =>
        apply hn
        simpa [hs.hasProto, he.hasProto, hd.hasProto] using
          congrArg (Flags.has ·.matchMask matchProto) h
    refine ⟨hp.1, ?_, hp.2⟩
    rintro rfl
    rw [unlessAny_of_ne (by decide), whenActive_of_inactive isOptionActive_nil] at h
    have hm : true = false :=
      calc
        true = Flags.has (setDstPort fam [] _).matchMask matchDstPort := has_dstPort_setDstPort.symm
        _    = _ := congrArg (Flags.has ·.matchMask matchDstPort) h
        _    = false := has_dstPort_extendedHead
    exact absurd hm nofun
  case mpr =>
    rintro ⟨hp, hq, hv⟩
    have hi : (unlessAny port id (setDstPort fam)
        (withDst d (extendedHead fam proto action))).invertMask = 0 := by
      rw [hs.invertMask, hd.invertMask, invertMask_extendedHead hf]
    rw [head_eq hp hv, whenActive_eq_unlessAny hq, ← hi]

-- When both calls come to the same rule or to none: an option must not be empty, and the protocol
-- must not be named in letters of the other case.
def Agrees (fam : Family α) (proto ip port : CString) : Prop :=
  ip ≠ [] ∧ (BadCidr fam ip ∨ proto ≠ [] ∧ port ≠ [] ∧ ¬CaseVariant fam proto)

theorem rule_eq_iff (hf : fam.Lawful) : (shortRule fam proto ip port action).toOption =
    (extendedRule fam (shortOpt proto ip port action)).toOption ↔ Agrees fam proto ip port := by
  rw [shortRule_eq, extendedRule_eq, Agrees]
  by_cases hi : ip = []
  case pos =>
    obtain ⟨e, he⟩ := hf.parseCidr_nil
    subst hi
    rw [unlessAny_of_ne (by decide), whenActive_of_inactive isOptionActive_nil, setDstIp, he]
    simp [bind, Except.bind, Except.toOption]
  case neg =>
    rw [whenActive_eq_unlessAny hi, and_iff_right hi]
    rcases setDstIp_cases fam ip with ⟨hb, h⟩ | ⟨hb, d, h⟩
    case inl =>
      obtain ⟨e, he⟩ := h (shortHead fam proto action)
      obtain ⟨e', he'⟩ := h (extendedHead fam proto action)
      simp [he, he', hb, bind, Except.bind, Except.toOption]
    case inr =>
      rw [h, h, or_iff_right hb, ← tail_eq_iff hf]
      exact Option.some_inj

end Build

section Calls

variable {env : MapEnv} {idx : Int} {isIpv6 : Bool}
variable {build build' : {α : Type} → Family α → Except RuleError (FilterRule α)}

-- What makes every call for a table fail.
def Blocked (env : MapEnv) (idx : Int) (isIpv6 : Bool) : Prop :=
  env.found .v4 = false ∨ env.found .v6 = false ∨ ¬(0 ≤ idx ∧ idx < maxRules) ∨
  env.updates (if isIpv6 then .v6 else .v4) = false

theorem sameEffect_iff {x y : Except RuleError Write} :
    SameEffect x y ↔ x.toOption = y.toOption := by
  constructor
  case mp =>
    rintro (_ | _)
    all_goals rfl
  case mpr =>
    intro h
    cases x <;> cases y
    case error.error => exact .fail
    case error.ok    => cases h
    case ok.error    => cases h
    case ok.ok       =>
      cases h
      exact .write

theorem sameEffect_commit {updates : Bool} {write : FilterRule α → Write}
    {x y : Except RuleError (FilterRule α)} (hw : write.Injective) :
    SameEffect (commit updates write x) (commit updates write y) ↔
    updates = false ∨ x.toOption = y.toOption := by
  have hc {x : Except RuleError (FilterRule α)} : (commit updates write x).toOption =
      if updates then x.toOption.map write else none := by
    cases x <;> cases updates <;> rfl
  rw [sameEffect_iff, hc, hc]
  cases updates
  case false => simp
  case true  => simpa using (Option.map_injective hw).eq_iff

theorem sameEffect_addRule : SameEffect (addRule libc env idx isIpv6 build)
    (addRule libc env idx isIpv6 build') ↔ Blocked env idx isIpv6 ∨
    if isIpv6 then (build (ipv6 libc)).toOption = (build' (ipv6 libc)).toOption
    else (build (ipv4 libc)).toOption = (build' (ipv4 libc)).toOption := by
  rw [addRule, addRule, Blocked]
  by_cases hm : !env.found .v4 || !env.found .v6
  case pos =>
    have hm' : env.found .v4 = false ∨ env.found .v6 = false := by simpa using hm
    rw [if_pos hm, if_pos hm]
    exact iff_of_true .fail (.inl (hm'.imp_right .inl))
  have hm' : env.found .v4 ≠ false ∧ env.found .v6 ≠ false := by simpa using hm
  rw [if_neg hm, if_neg hm, or_iff_right hm'.1, or_iff_right hm'.2]
  by_cases hi : 0 ≤ idx ∧ idx < maxRules
  case neg =>
    rw [dif_neg hi, dif_neg hi]
    exact iff_of_true .fail (.inl (.inl hi))
  rw [dif_pos hi, dif_pos hi, or_iff_right (not_not.mpr hi)]
  cases isIpv6
  case false => exact sameEffect_commit fun _ _ h => (Write.v4.inj h).2
  case true  => exact sameEffect_commit fun _ _ h => (Write.v6.inj h).2

-- The table that a rule goes into.
def wantsIpv6 (proto ip : CString) : Bool :=
  ip.contains ':' || proto == "icmpv6".toList

theorem short_special_case_iff : SameEffect
    (rulesAdd libc env idx (some proto) (some ip) (some port) (some action))
    (rulesAddExtended libc env idx (some (shortOpt proto ip port action))) ↔
    Blocked env idx (wantsIpv6 proto ip) ∨
    if wantsIpv6 proto ip then Agrees (ipv6 libc) proto ip port
    else Agrees (ipv4 libc) proto ip port := by
  have hs : rulesAdd libc env idx (some proto) (some ip) (some port) (some action) =
      addRule libc env idx (wantsIpv6 proto ip) (shortRule · proto ip port action) := rfl
  have he : rulesAddExtended libc env idx (some (shortOpt proto ip port action)) =
      addRule libc env idx (wantsIpv6 proto ip) (extendedRule · (shortOpt proto ip port action)) :=
    rfl
  rw [hs, he, sameEffect_addRule, rule_eq_iff ipv4_lawful, rule_eq_iff ipv6_lawful]

-- The short call takes a name in capital letters for the number 0.
theorem short_protocol_case : ¬SameEffect
    (rulesAdd noAddresses allOk 0 (some "TCP".toList) (some "any".toList) (some "80".toList)
      (some "drop".toList))
    (rulesAddExtended noAddresses allOk 0
      (some (shortOpt "TCP".toList "any".toList "80".toList "drop".toList))) := by
  rw [sameEffect_iff]
  decide

end Calls

end Pinned
