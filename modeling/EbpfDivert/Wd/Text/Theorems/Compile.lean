import EbpfDivert.Wd.Text.Compile
import EbpfDivert.Wd.Text.Theorems.Flatten
import EbpfDivert.Wd.Text.Theorems.Parse
import EbpfDivert.Wd.Text.Theorems.Simplify
import EbpfDivert.Wd.Text.Theorems.Tokens

namespace Wd.Text

section Tests

variable {layer : Layer} {s : List Kind} {v : Var} {t : TestExpr} {e : Expr} {c : Category}

-- The tests that come out of symbols that are made for a layer.
structure TestExpr.Made (layer : Layer) (t : TestExpr) : Prop where
  kind  : t.kind ≠ .other
  valid : t.var.Valid layer

theorem IsVar.valid (h : IsVar s v) (hm : ∀ k ∈ s, k.Made layer) : v.Valid layer := by
  cases h
  case true | false => trivial
  case field f _ | data f _ _ _ _ _ _ => exact (hm (.field f) List.mem_cons_self).valid rfl

theorem IsTest.made (h : IsTest s t) (hm : ∀ k ∈ s, k.Made layer) : t.Made layer := by
  refine ⟨h.kind_ne, ?_⟩
  cases h
  case bare s v nots hv => exact hv.valid fun k hk => hm k (List.mem_append_right _ hk)
  case compare s v op t n nots neg hv ho =>
    exact hv.valid fun k hk => hm k (List.mem_append_right _ (List.mem_append_left _ hk))

theorem Derives.made (h : Derives c s e) (hm : ∀ k ∈ s, k.Made layer) : ∀ t ∈ e.tests, t.Made layer := by
  induction h
  case test t ht => simpa [Expr.tests] using ht.made hm
  case paren ih => exact ih fun k hk => hm k (by simp [hk])
  case question ihc iht ihe =>
    simp only [Expr.tests, List.mem_append]
    rintro t ((ht | ht) | ht)
    · exact ihc (fun k hk => hm k (by simp [hk])) t ht
    · exact iht (fun k hk => hm k (by simp [hk])) t ht
    · exact ihe (fun k hk => hm k (by simp [hk])) t ht
  case single ih | conjunction ih => exact ih hm
  case and iha ihb | or iha ihb =>
    simp only [Expr.tests, List.mem_append]
    rintro t (ht | ht)
    · exact iha (fun k hk => hm k (by simp [hk])) t ht
    · exact ihb (fun k hk => hm k (by simp [hk])) t ht

end Tests

section Total

variable {x : Input} {t : TestExpr} {e : Expr} {ask : TestExpr → Option Bool}

theorem answer_isSome {insn : Insn} (hv : validateField x.layer insn.field) (ht : insn.test ≠ .other) :
    (answer x insn).isSome := by
  rw [answer, if_pos hv]
  split
  case h_1 hr => exact absurd hr (readField_ne_error hv _)
  case h_2 => rfl
  case h_3 => cases h : insn.test <;> simp_all [Test.holds]

-- A test of the layer is always answered.
theorem simplified_isSome (h : t.Made x.layer) : (simplified (fun t => answer x t.insn) t).isSome := by
  cases hr : t.ruled
  case some r => rw [simplified_of_ruled h.valid hr]; rfl
  case none =>
    rw [simplified_of_not_ruled hr]
    cases hv : t.var
    case field f idx =>
      have hf := h.valid
      rw [hv] at hf
      have hfield : t.insn.field = f := by simp [TestExpr.insn, emitTest, hv, kindToField]
      exact answer_isSome (hfield ▸ hf) h.kind
    all_goals
      have := ruled_of_constant (by simp) h.kind hv
      rw [hr] at this
      cases this

theorem eval_isSome (hw : e.Whole) (h : ∀ t ∈ e.tests, (ask t).isSome) : (e.eval ask).isSome := by
  induction e
  case null => cases hw
  case test t => exact h t List.mem_cons_self
  case and a b iha ihb =>
    have hb := ihb hw.2 fun t ht => h t (List.mem_append_right _ ht)
    obtain ⟨r, hr⟩ := Option.isSome_iff_exists.mp (iha hw.1 fun t ht => h t (List.mem_append_left _ ht))
    cases r <;> simp [Expr.eval, hr, hb]
  case or a b iha ihb =>
    have hb := ihb hw.2 fun t ht => h t (List.mem_append_right _ ht)
    obtain ⟨r, hr⟩ := Option.isSome_iff_exists.mp (iha hw.1 fun t ht => h t (List.mem_append_left _ ht))
    cases r <;> simp [Expr.eval, hr, hb]
  case question c th el ihc iht ihe =>
    have ht := iht hw.2.1 fun t ht => h t (List.mem_append_left _ (List.mem_append_right _ ht))
    have he := ihe hw.2.2 fun t ht => h t (List.mem_append_right _ ht)
    obtain ⟨r, hr⟩ := Option.isSome_iff_exists.mp
      (ihc hw.1 fun t ht => h t (List.mem_append_left _ (List.mem_append_left _ ht)))
    cases r <;> simp [Expr.eval, hr, ht, he]

end Total

section Flatten

variable {e : Expr} {succ fail : Option Nat} {l : Nat} {stack stack' : List Stacked}

-- A null pointer does not come through.
theorem whole_of_flattenExpr (h : flattenExpr e succ fail stack = some (some l, stack')) : e.Whole := by
  obtain ⟨s, f, rfl, rfl⟩ := flattenExpr_some h
  induction e generalizing s f l stack stack'
  case null => simp [flattenExpr] at h
  case test => trivial
  case and a b iha ihb =>
    rw [flattenExpr_and] at h
    obtain ⟨⟨r, st⟩, hb, ha⟩ := Option.bind_eq_some_iff.mp h
    obtain ⟨s', f', hr, hf⟩ := flattenExpr_some ha
    simp only at hr ha
    subst hr
    exact ⟨iha _ _ ha, ihb _ _ hb⟩
  case or a b iha ihb =>
    rw [flattenExpr_or] at h
    obtain ⟨⟨r, st⟩, hb, ha⟩ := Option.bind_eq_some_iff.mp h
    obtain ⟨s', f', hs, hr⟩ := flattenExpr_some ha
    simp only at hr ha
    subst hr
    exact ⟨iha _ _ ha, ihb _ _ hb⟩
  case question c th el ihc iht ihe =>
    rw [flattenExpr_question] at h
    obtain ⟨⟨r₁, st₁⟩, he, h⟩ := Option.bind_eq_some_iff.mp h
    obtain ⟨⟨r₂, st₂⟩, ht, hc⟩ := Option.bind_eq_some_iff.mp h
    obtain ⟨s', f', hr₂, hr₁⟩ := flattenExpr_some hc
    simp only at hr₁ hr₂ ht hc
    subst hr₁ hr₂
    exact ⟨ihc _ _ hc, iht _ _ ht, ihe _ _ he⟩

variable {s : Stacked} {r : Option Nat}

-- A test of the stack that comes from one of `ts`.
def Stacked.From (ts : List TestExpr) (s : Stacked) : Prop :=
  ∃ t ∈ ts, s.test = simplifyTest t ∧ constant s.test = none

theorem Stacked.From.mono {ts ts' : List TestExpr} (h : s.From ts) (hs : ts ⊆ ts') : s.From ts' := by
  obtain ⟨t, ht, hr⟩ := h
  exact ⟨t, hs ht, hr⟩

theorem mem_stack (h : flattenExpr e succ fail stack = some (r, stack')) (hs : s ∈ stack') :
    s ∈ stack ∨ s.From e.tests := by
  induction e generalizing succ fail r stack stack'
  case null =>
    rw [flattenExpr] at h
    split_ifs at h
    cases h
    exact .inl hs
  case test t =>
    simp only [flattenExpr] at h
    split at h
    case h_2 => cases h; exact .inl hs
    case h_1 =>
      split at h
      case h_1 => cases h; exact .inl hs
      case h_2 hc =>
        split_ifs at h
        case pos => cases h; exact .inl hs
        case neg =>
          cases h
          rcases List.mem_cons.mp hs with rfl | hs
          · exact .inr ⟨t, List.mem_cons_self, rfl, hc⟩
          · exact .inl hs
  case and a b iha ihb | or a b iha ihb =>
    rw [flattenExpr] at h
    split_ifs at h
    case pos => cases h; exact .inl hs
    case neg =>
      obtain ⟨⟨r₁, st₁⟩, hb, ha⟩ := Option.bind_eq_some_iff.mp h
      rcases iha ha hs with hs | hs
      · exact (ihb hb hs).imp_right (·.mono (List.subset_append_right ..))
      · exact .inr (hs.mono (List.subset_append_left ..))
  case question c th el ihc iht ihe =>
    rw [flattenExpr] at h
    split_ifs at h
    case pos => cases h; exact .inl hs
    case neg =>
      obtain ⟨⟨r₁, st₁⟩, he, h⟩ := Option.bind_eq_some_iff.mp h
      obtain ⟨⟨r₂, st₂⟩, ht, hc⟩ := Option.bind_eq_some_iff.mp h
      rcases ihc hc hs with hs | hs
      · rcases iht ht hs with hs | hs
        · exact (ihe he hs).imp_right (·.mono (List.subset_append_right ..))
        · exact .inr (hs.mono fun t ht => List.mem_append_left _ (List.mem_append_right _ ht))
      · exact .inr (hs.mono fun t ht => List.mem_append_left _ (List.mem_append_left _ ht))

theorem mem_emitFilter {l : Nat} {insn : Insn} (h : insn ∈ emitFilter stack l) :
    (insn.field = .zero ∧ insn.test = .eq ∧ insn.neg = false) ∨
    ∃ s ∈ stack, insn.field = kindToField s.test.var ∧ insn.test = s.test.kind ∧ insn.neg = s.test.val.neg := by
  rw [emitFilter] at h
  split_ifs at h
  case pos =>
    rw [List.mem_singleton.mp h]
    exact .inl ⟨rfl, rfl, rfl⟩
  case neg =>
    obtain ⟨s, hs, rfl⟩ := List.mem_map.mp h
    exact .inr ⟨s, List.mem_of_mem_drop hs, rfl, rfl, rfl⟩

end Flatten

section Compile

variable {layer : Layer} {filter : CString} {object : List Insn} {e : Expr} {toks : List Token} {x : Input}

-- What stands behind a compiled filter: the symbols that it was read from, and the expression that
-- they stand for.
structure Compiles (layer : Layer) (filter : CString) (s : List Kind) (e : Expr) (object : List Insn) :
    Prop where
  reads   : ∃ pre p, tokenizeFilter layer filter = some (.ok (pre ++ [⟨.eof, some p⟩])) ∧
    pre.map Token.kind = s
  made    : ∀ k ∈ s, k.Made layer
  derives : Derives .filter s e
  object  : compileExpr e = some (.ok object)

theorem compiles_of_ok (ha : filter.head? ≠ some '@') (h : compileFilter layer filter = some (.ok object)) :
    ∃ s e, Compiles layer filter s e object := by
  rw [compileFilter, if_neg ha] at h
  split at h
  case h_1 | h_2 => cases h
  case h_3 toks ht =>
    obtain ⟨pre, p, rfl, hmade⟩ := (tokenized_of_ok ht).shape
    rw [compileTokens] at h
    split at h
    case h_1 => cases h
    case h_2 e hp =>
      obtain ⟨⟨r, stack⟩, hf, hr⟩ := Option.map_eq_some_iff.mp h
      cases r <;> cases hr
      refine ⟨pre.map Token.kind, e, ⟨pre, p, ht, rfl⟩, ?_, ?_, h⟩
      · simpa using hmade
      · exact derives_of_parse (fun tok ht => (hmade tok ht).ne_eof) rfl hp (whole_of_flattenExpr hf)

theorem executeFilter_compileExpr (h : compileExpr e = some (.ok object)) : Proper object ∧
    ∀ x, executeFilter object x = e.eval (simplified fun t => answer x t.insn) := by
  obtain ⟨⟨r, stack⟩, hf, hr⟩ := Option.map_eq_some_iff.mp h
  cases r <;> cases hr
  exact executeFilter_flattenExpr hf

-- A filter that has been compiled for a layer gives a verdict for everything on that layer.
theorem executeFilter_isSome (ha : filter.head? ≠ some '@')
    (h : compileFilter layer filter = some (.ok object)) (hl : x.layer = layer) :
    (executeFilter object x).isSome := by
  obtain ⟨s, e, hc⟩ := compiles_of_ok ha h
  rw [(executeFilter_compileExpr hc.object).2]
  refine eval_isSome hc.derives.whole fun t ht => simplified_isSome ?_
  exact hl ▸ hc.derives.made hc.made t ht

-- The verdict is what the filter says, wherever its tests are exact.
theorem executeFilter_compileFilter (ha : filter.head? ≠ some '@')
    (h : compileFilter layer filter = some (.ok object)) : ∃ pre p e,
    tokenizeFilter layer filter = some (.ok (pre ++ [⟨.eof, some p⟩])) ∧
    Derives .filter (pre.map Token.kind) e ∧ Proper object ∧
    ∀ x, InRange x → (∀ t ∈ e.tests, Exact x t) →
      executeFilter object x = some (decide (e.Holds x)) := by
  obtain ⟨s, e, hc⟩ := compiles_of_ok ha h
  obtain ⟨pre, p, ht, rfl⟩ := hc.reads
  have hrun := executeFilter_compileExpr hc.object
  refine ⟨pre, p, e, ht, hc.derives, hrun.1, fun x hx hexact => ?_⟩
  rw [hrun.2]
  exact eval_eq_holds hc.derives.whole fun t ht => (hexact t ht).simplified_eq hx

section Web

def webText : CString :=
  "(outbound ? tcp.DstPort == 443 : tcp.SrcPort == 443) and not loopback or udp".toList

def webObject : List Insn :=
  [⟨.outbound, .neq, 1, 2, false, .zero⟩,
   ⟨.tcpDstPort, .eq, 3, 4, false, .ofNarrow 443⟩,
   ⟨.tcpSrcPort, .eq, 3, 4, false, .ofNarrow 443⟩,
   ⟨.loopback, .eq, resultAccept, 4, false, .zero⟩,
   ⟨.udp, .neq, resultAccept, resultReject, false, .zero⟩]

set_option maxRecDepth 10000 in
theorem tokenizeFilter_web :
    tokenizeFilter .network webText = some (.ok (webTokens ++ [⟨.eof, some 76⟩])) := by
  decide +kernel

set_option maxRecDepth 10000 in
theorem compileFilter_web : compileFilter .network webText = some (.ok webObject) := by
  decide +kernel

-- What the text stands for.
theorem eq_webExpr {pre : List Token} {p : Nat}
    (ht : tokenizeFilter .network webText = some (.ok (pre ++ [⟨.eof, some p⟩])))
    (he : Derives .filter (pre.map Token.kind) e) : e = webExpr := by
  rw [tokenizeFilter_web] at ht
  obtain ⟨rfl, -⟩ := List.append_inj' (Except.ok.inj (Option.some.inj ht)) rfl
  exact derives_unique he (derives_of_parse (by decide) rfl parse_webTokens.1 parse_webTokens.2)

-- None of its tests is decided by the compiler.
theorem exact_web {x : Input} (hl : x.layer = .network) : ∀ t ∈ webExpr.tests, Exact x t := by
  have hr : ∀ t ∈ webExpr.tests, t.ruled = none := by decide +kernel
  intro t ht
  have absent {r : Bool} (h : t.ruled = some r) : False := by simp [hr t ht] at h
  simp only [webExpr, Expr.tests, List.mem_append, List.mem_singleton] at ht
  obtain (((rfl | rfl) | rfl) | rfl) | rfl := ht
  all_goals
    exact ⟨by simp, hl ▸ rfl, by simp [Number.Proper, makeZero], fun _ => by decide, fun _ => by decide,
      fun h => (absent h).elim⟩

-- A connection request from 10.0.0.1 to port 443 of 192.0.2.1.
def webPacket : Bytes :=
  [0x45, 0, 0, 40, 0, 0, 0x40, 0, 64, 6, 0, 0, 10, 0, 0, 1, 192, 0, 2, 1] ++
    [0xC0, 0, 1, 0xBB, 0, 0, 0, 0, 0, 0, 0, 0, 0x50, 0x02, 0xFF, 0xFF, 0, 0, 0, 0]

def webAddress : Address where
  timestamp   := 0
  layer       := .network
  event       := 0
  sniffed     := false
  outbound    := true
  loopback    := false
  impostor    := false
  ipv6        := false
  ipChecksum  := true
  tcpChecksum := true
  udpChecksum := true
  network     := ⟨2, 0⟩
  flow        := ⟨0, 0, 0, .zero, .zero, 0, 0, 0⟩
  socket      := ⟨0, 0, 0, .zero, .zero, 0, 0, 0⟩
  reflect     := ⟨0, 0, .network, 0, 0⟩

def webInput : Input :=
  webAddress.input 0 webPacket (parsePacketEx webPacket)

theorem inRange_web : InRange webInput where
  timestamp := by decide
  event     := by decide
  length    := fun _ => by decide
  payload   := by decide
  priority  := by decide

theorem executeFilter_web : webExpr.Holds webInput ∧
    executeFilter webObject webInput = some (decide (webExpr.Holds webInput)) := by
  obtain ⟨pre, p, e, ht, he, -, hrun⟩ := executeFilter_compileFilter (by decide) compileFilter_web
  obtain rfl := eq_webExpr ht he
  exact ⟨by decide, hrun webInput inRange_web (exact_web rfl)⟩

end Web

-- A string that is evaluated on a packet, or on an event without one, decides as the filter that it
-- compiles to.
theorem evalFilterString_eq {hash : BitVec 64} {packet : Option Bytes} {addr : Address}
    (h : compileFilter addr.layer filter = some (.ok object))
    (hp : addr.layer = .network ∨ addr.layer = .networkForward → packet.isSome)
    (hn : addr.layer = .flow ∨ addr.layer = .socket → packet = none) :
    evalFilterString hash filter packet addr =
      some (filterEval ⟨addr.layer, object⟩ hash (packet.getD []) addr) := by
  simp only [evalFilterString, filterEval, h]
  cases hl : addr.layer <;> simp only [hl] at hp hn
  case network | networkForward =>
    obtain ⟨packet, rfl⟩ := Option.isSome_iff_exists.mp (hp (by simp))
    cases hi : parsePacketEx packet
    case none => simp [hi]
    case some info =>
      simp only [Option.getD_some, hi]
      split_ifs <;> simp_all
  case flow | socket =>
    obtain rfl := hn (by simp)
    simp
  case reflect => simp

theorem compileExpr_ok_iff (hw : e.Whole) :
    (∃ object, compileExpr e = some (.ok object)) ↔ e.size ≤ filterMaxLen := by
  obtain ⟨⟨r, stack⟩, hf, hfits⟩ := exists_flattenExpr (s := resultAccept) (f := resultReject) hw
    (show ([] : List Stacked).length ≤ filterMaxLen from Nat.zero_le _)
  have hi := hfits.isSome_iff
  rw [List.length_nil, Nat.zero_add] at hi
  rw [← hi, compileExpr, hf]
  cases r <;> simp

theorem compileFilter_of_tokens (ha : filter.head? ≠ some '@')
    (ht : tokenizeFilter layer filter = some (.ok toks)) :
    compileFilter layer filter = compileTokens toks := by
  simp only [compileFilter, if_neg ha, ht]

-- Which filters are compiled: those of the language that have no more tests than there is room for.
theorem compileFilter_ok_iff {pre : List Token} {last : Token} (ha : filter.head? ≠ some '@')
    (ht : tokenizeFilter layer filter = some (.ok (pre ++ [last])))
    (hn : nesting (pre.map Token.kind) + 3 ≤ maxDepth + 1) :
    (∃ object, compileFilter layer filter = some (.ok object)) ↔
      ∃ e, Derives .filter (pre.map Token.kind) e ∧ e.size ≤ filterMaxLen := by
  obtain ⟨pre', p, hpre, -⟩ := (tokenized_of_ok ht).shape
  obtain ⟨rfl, hlast⟩ := List.append_inj' hpre rfl
  constructor
  case mp =>
    rintro ⟨object, h⟩
    obtain ⟨s, e, hc⟩ := compiles_of_ok ha h
    obtain ⟨pre', p', ht', rfl⟩ := hc.reads
    rw [ht] at ht'
    obtain ⟨rfl, -⟩ := List.append_inj' (Except.ok.inj (Option.some.inj ht')) rfl
    exact ⟨e, hc.derives, (compileExpr_ok_iff hc.derives.whole).mp ⟨object, hc.object⟩⟩
  case mpr =>
    rintro ⟨e, he, hs⟩
    have hl : last.kind = .eof := by rw [(List.cons.inj hlast).1]
    rw [compileFilter_of_tokens ha ht, compileTokens, parse_of_derives hl hn he]
    exact (compileExpr_ok_iff he.whole).mpr hs

theorem compileFilter_ok_iff_web : (∃ object, compileFilter .network webText = some (.ok object)) ↔
    ∃ e, Derives .filter (webTokens.map Token.kind) e ∧ e.size ≤ filterMaxLen :=
  compileFilter_ok_iff (by decide) tokenizeFilter_web (by decide)

theorem parse_error {err : Error} (hl : Ended toks) (h : parse toks = .error err) :
    ∃ tok ∈ toks, tok.pos = err.pos := by
  have hs : Stays toks (parseFilter (maxDepth + 1) false toks) := (stays (maxDepth + 1)).2 hl
  rw [parse] at h
  split at h
  case h_1 e rest hp =>
    cases h
    exact hs.error (by rw [hp])
  case h_2 e rest hp =>
    split at h
    case isFalse => cases h
    case isTrue =>
      cases h
      rw [hp] at hs
      exact ⟨_, hs.reach.suffix.subset hs.reach.ended.peek_mem, rfl⟩

-- Errors point into the string or one position before it. Only where the string has the unit of an
-- index, the position may be one that was never written.
theorem compileFilter_error {err : Error} (ha : filter.head? ≠ some '@') (hlen : filter.length < 2 ^ 32)
    (h : compileFilter layer filter = some (.error err)) :
    (∃ p, err.pos = some p ∧ Points filter.length p) ∨
    (err.pos = none ∧ ∃ toks, tokenizeFilter layer filter = some (.ok toks) ∧ .bytes ∈ toks.map Token.kind) := by
  rw [compileFilter, if_neg ha] at h
  split at h
  case h_1 => cases h
  case h_2 e ht =>
    cases h
    have hp := points_of_error (by omega) ht
    rw [Nat.zero_add] at hp
    exact .inl hp
  case h_3 toks ht =>
    have hok := tokenized_of_ok ht
    rw [compileTokens] at h
    split at h
    case h_1 e hp =>
      cases h
      obtain ⟨pre, p, hpre, -⟩ := hok.shape
      obtain ⟨tok, hm, hpos⟩ := parse_error ⟨_, hpre ▸ List.getLast?_concat, rfl⟩ hp
      rcases hok.placed tok hm with ⟨hb, hn⟩ | ⟨p, hp, -, hle⟩
      · exact .inr ⟨hpos ▸ hn, toks, ht, hb ▸ List.mem_map_of_mem hm⟩
      · exact .inl ⟨p, hpos ▸ hp, .inl (by omega)⟩
    case h_2 e hp =>
      obtain ⟨⟨r, stack⟩, hf, hr⟩ := Option.map_eq_some_iff.mp h
      cases r <;> cases hr
      exact .inl ⟨0, rfl, .inl (Nat.zero_le _)⟩

-- A comparison without its right side.
def unfinishedText : CString :=
  "tcp ==".toList

set_option maxRecDepth 10000 in
theorem compileFilter_error_unfinished :
    compileFilter .network unfinishedText = some (.error ⟨.unexpectedToken, some 6⟩) ∧
    ((∃ p, (some 6 : Option Nat) = some p ∧ Points unfinishedText.length p) ∨ ((some 6 : Option Nat) = none ∧
      ∃ toks, tokenizeFilter .network unfinishedText = some (.ok toks) ∧ .bytes ∈ toks.map Token.kind)) := by
  have h : compileFilter .network unfinishedText = some (.error ⟨.unexpectedToken, some 6⟩) := by
    decide +kernel
  exact ⟨h, compileFilter_error (by decide) (by decide) h⟩

end Compile

section Crash

variable {s s₁ s₂ : List Kind} {th el : Expr} {toks rest : List Token} {n : Nat}

-- The beginnings of a test: nothing but negations, packet data without an index, and a comparison
-- without its literal.
inductive Broken : List Kind → Prop
  | var (nots : Nat) : Broken (List.replicate nots .not)
  | index {f : Field} (nots : Nat) : isArray f → Broken (List.replicate nots .not ++ [.field f])
  | literal {s : List Kind} {v : Var} {op : Kind} {t : Test} (nots : Nat) (neg : Bool) :
    IsVar s v → op.test = some t →
    Broken (List.replicate nots .not ++ (s ++ op :: optionally .minus neg))

theorem parseTest_of_broken (hb : Broken s) (h : Spans s toks rest) (hr : (peek rest).kind = .question) :
    parseTest toks = unexpected rest ∧ (peek toks).kind ≠ .roundOpen := by
  cases hb
  case var k =>
    have hv : parseVar rest = unexpected rest := by simp only [parseVar, hr]
    refine ⟨?_, start_of_nots h (by simp [hr])⟩
    simp only [parseTest, parseNots_of_spans h (by simp [hr]), hv, unexpected]
  case index f k ha =>
    obtain ⟨mid, hnots, hs⟩ := spans_append.mp h
    rw [spans_cons (by simp), spans_nil] at hs
    obtain ⟨hk, rfl⟩ := hs
    have hv : parseVar mid = unexpected mid.tail := by
      simp only [parseVar, hk, ha, if_true, parseIndex, hr, ne_eq, reduceCtorEq, not_false_eq_true, unexpected]
      rfl
    refine ⟨?_, start_of_nots hnots (by simp [hk])⟩
    simp only [parseTest, parseNots_of_spans hnots (by simp [hk] : (peek mid).kind ≠ .not), hv, unexpected]
  case literal s v op t k neg hv ho =>
    obtain ⟨mid, hnots, h⟩ := spans_append.mp h
    obtain ⟨mid₁, hvar, h⟩ := spans_append.mp h
    rw [spans_cons (by rintro rfl; cases ho)] at h
    obtain ⟨hk, hneg⟩ := h
    have hopt := optional_of_spans (by simp) hneg (by simp [hr])
    refine ⟨?_, start_of_nots hnots (hv.start hvar).2⟩
    simp only [parseTest, parseNots_of_spans hnots (hv.start hvar).1, parseVar_of_spans hv hvar, hk, ho,
      hopt, hr, unexpected]

theorem parseFilter_of_broken {and : Bool} (hb : Broken s) (h : Spans s toks rest)
    (hr : (peek rest).kind = .question) : parseFilter (n + 3) and toks = unexpected rest := by
  obtain ⟨ht, ho⟩ := parseTest_of_broken hb h hr
  have harg (n : Nat) : parseAndOrArg (n + 1) toks = unexpected rest := by
    rw [parseAndOrArg]
    split
    case h_1 hk => exact absurd hk ho
    case h_2 => exact ht
  have htrue (n : Nat) : parseFilter (n + 2) true toks = unexpected rest := by
    simp only [parseFilter, if_true, harg, unexpected]
  cases and
  case true  => exact htrue (n + 1)
  case false => rw [parseFilter, if_neg (by simp), htrue]; rfl

-- The branches are read behind a condition that could not be.
theorem parseAndOrArg_of_broken (hb : Broken s) (ht : Derives .filter s₁ th) (he : Derives .filter s₂ el)
    (hn : nesting s₁ + nesting s₂ + 4 ≤ n)
    (h : Spans (.roundOpen :: (s ++ .question :: (s₁ ++ .colon :: (s₂ ++ [.roundClose])))) toks rest) :
    parseAndOrArg n toks = (.ok (.question .null th el), rest) := by
  obtain ⟨n, rfl⟩ : ∃ m, n = m + 4 := ⟨n - 4, by omega⟩
  rw [spans_cons (by simp), spans_append] at h
  obtain ⟨ho, mid, hs, h⟩ := h
  rw [spans_cons (by simp), spans_append] at h
  obtain ⟨hq, mid₁, h₁, h⟩ := h
  rw [spans_cons (by simp), spans_append] at h
  obtain ⟨hc, mid₂, h₂, h⟩ := h
  rw [spans_cons (by simp), spans_nil] at h
  obtain ⟨hr, rfl⟩ := h
  have hth := (parses_of_derives ht).outer (n := n + 3) h₁
    (stops_of_eq hc rfl (by simp) (by simp)) (by omega)
  have hel := (parses_of_derives he).outer (n := n + 3) h₂
    (stops_of_eq hr rfl (by simp) (by simp)) (by omega)
  simp only [parseAndOrArg, ho, parseFilter_of_broken hb hs hq, unexpected, hq, parseBranches, hth, hc,
    hel, hr, ne_eq, not_true, if_false, orNull]

theorem parse_of_broken (hb : Broken s) (ht : Derives .filter s₁ th) (he : Derives .filter s₂ el)
    (hn : nesting s₁ + nesting s₂ + 6 ≤ maxDepth)
    (hk : toks.map Token.kind = .roundOpen :: (s ++ .question :: (s₁ ++ .colon :: (s₂ ++ [.roundClose, .eof])))) :
    parse toks = .ok (.question .null th el) := by
  have hk : toks.map Token.kind =
      (.roundOpen :: (s ++ .question :: (s₁ ++ .colon :: (s₂ ++ [.roundClose])))) ++ [.eof] := by
    rw [hk]
    simp
  obtain ⟨pre, rest, rfl, hpre, hrest⟩ := List.map_eq_append_iff.mp hk
  obtain ⟨last, rfl, hl⟩ := List.map_eq_singleton_iff.mp hrest
  have hnoop : NoOp [last] := by simp [NoOp, hl]
  obtain ⟨n, hd⟩ : ∃ n, maxDepth = n + 1 := ⟨maxDepth - 1, by decide⟩
  have hs : Spans _ (pre ++ [last]) [last] := ⟨pre, rfl, hpre⟩
  have harg := parseAndOrArg_of_broken (n := n) hb ht he (by omega) hs
  simp only [parse, hd, parseFilter, harg, if_true, Bool.false_eq_true, if_false, parseOps_of_noOp hnoop,
    peek_cons, hl, ne_eq, not_true]

-- A condition that cannot be read becomes a null pointer, which the compiler then dereferences.
theorem compileTokens_of_broken (hb : Broken s) (ht : Derives .filter s₁ th) (he : Derives .filter s₂ el)
    (hs : th.size + el.size ≤ filterMaxLen) (hn : nesting s₁ + nesting s₂ + 6 ≤ maxDepth)
    (hk : toks.map Token.kind = .roundOpen :: (s ++ .question :: (s₁ ++ .colon :: (s₂ ++ [.roundClose, .eof])))) :
    compileTokens toks = none := by
  rw [compileTokens, parse_of_broken hb ht he hn hk]
  have hsize : (Expr.question .null th el).size = th.size + el.size := by
    rw [size_question]
    simp [Expr.size, Expr.tests]
  have hf : flattenExpr (.question .null th el) (some resultAccept) (some resultReject) [] = none :=
    flattenExpr_of_not_whole (fun h => h.1) (by rw [hsize]; simpa using hs)
  simp only [compileExpr, hf, Option.map_none]

-- `(? tcp: udp)`
theorem compileTokens_of_missing : compileTokens [⟨.roundOpen, some 0⟩, ⟨.question, some 1⟩,
    ⟨.field .tcp, some 3⟩, ⟨.colon, some 6⟩, ⟨.field .udp, some 8⟩, ⟨.roundClose, some 11⟩,
    ⟨.eof, some 12⟩] = none := by
  have hbare {f : Field} (ha : isArray f = false) :
      Derives .filter [.field f] (.test ⟨.neq, makeVar f, makeZero⟩) :=
    .conjunction (.single (.test (.bare 0 (.field ha))))
  exact compileTokens_of_broken (.var 0) (hbare (f := .tcp) rfl) (hbare (f := .udp) rfl) (by decide)
    (by decide) rfl

end Crash

end Wd.Text
