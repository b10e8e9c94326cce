import EbpfDivert.Wd.Text.Theorems.Compile
import EbpfDivert.Wd.Text.Theorems.Format
import EbpfDivert.Wd.Text.Theorems.Spelling

-- The text of a compiled filter is read as a filter with the same verdicts.
namespace Wd.Text

section Names

variable {layer : Layer} {f : Field} {val : BitVec 32} {name : String} {m : Macro} {k : Kind}

theorem spells_fieldName (hv : validateField layer f) :
    Spells layer (fieldName f).toList [.field f] ∧ Tight (fieldName f).toList := by
  have hnames : ∀ f ∈ Field.all, ((fieldName f).toList, Kind.field f) ∈ tokenInfo := by decide +kernel
  have hf : f ≠ .other := by
    rintro rfl
    cases hv
  have hm := hnames f (List.mem_of_getElem? (Field.all_code hf))
  refine spells_name hm ?_
  rw [word, tokenLookup_eq_some_iff.mpr hm]
  simp only [hv, if_true]

theorem spells_macro (hm : (name.toList, Kind.named m) ∈ tokenInfo) (he : expandMacro m layer = some val) :
    Spells layer name.toList [.number (.ofNarrow val)] := by
  refine (spells_name hm ?_).1
  rw [word, tokenLookup_eq_some_iff.mpr hm]
  simp only [he]
  rfl

theorem spells_layerName (h : layerName val = some name) :
    Spells layer name.toList [.number (.ofNarrow val)] := by
  simp only [layerName] at h
  split_ifs at h with h₁ h₂ h₃ h₄ h₅ <;> cases h
  · exact h₁ ▸ spells_macro (m := .network) (by decide +kernel) rfl
  · exact h₂ ▸ spells_macro (m := .networkForward) (by decide +kernel) rfl
  · exact h₃ ▸ spells_macro (m := .flow) (by decide +kernel) rfl
  · exact h₄ ▸ spells_macro (m := .socket) (by decide +kernel) rfl
  · exact h₅ ▸ spells_macro (m := .reflect) (by decide +kernel) rfl

theorem spells_eventName (h : eventName layer val = some name) :
    Spells layer name.toList [.number (.ofNarrow val)] := by
  cases layer <;> simp only [eventName] at h
  case network | networkForward =>
    split_ifs at h with h₁
    cases h
    exact h₁ ▸ spells_macro (m := .eventPacket) (by decide +kernel) rfl
  case flow =>
    split_ifs at h with h₁ h₂ <;> cases h
    · exact h₁ ▸ spells_macro (m := .eventEstablished) (by decide +kernel) rfl
    · exact h₂ ▸ spells_macro (m := .eventDeleted) (by decide +kernel) rfl
  case socket =>
    split_ifs at h with h₁ h₂ h₃ h₄ h₅ <;> cases h
    · exact h₁ ▸ spells_macro (m := .eventBind) (by decide +kernel) rfl
    · exact h₂ ▸ spells_macro (m := .eventConnect) (by decide +kernel) rfl
    · exact h₃ ▸ spells_macro (m := .eventListen) (by decide +kernel) rfl
    · exact h₄ ▸ spells_macro (m := .eventAccept) (by decide +kernel) rfl
    · exact h₅ ▸ spells_macro (m := .eventClose) (by decide +kernel) rfl
  case reflect =>
    split_ifs at h with h₁ h₂ <;> cases h
    · exact h₁ ▸ spells_macro (m := .eventOpen) (by decide +kernel) rfl
    · exact h₂ ▸ spells_macro (m := .eventClose) (by decide +kernel) rfl

end Names

section Numbers

variable {layer : Layer} {f : Field} {val : Words}

-- The fields whose numbers are written by their lowest word alone.
def Written (f : Field) (val : Words) : Prop :=
  match f with
  | .ipSrcAddr | .ipDstAddr => val.isMappedIpv4
  | .layer | .event         => val.value < 2 ^ 32
  | _                       => True

theorem ofNarrow_word (h : val.value < 2 ^ 32) : Words.ofNarrow (val.word 0) = val := by
  rw [← Words.value_inj, value_ofNarrow, value_of_lt h]

theorem spells_formatDecNumber (val : Words) :
    ∃ w, formatDecNumber val = some w ∧ Spells layer w [.number val] :=
  ⟨_, formatDecNumber_eq val, spells_dec val⟩

theorem spells_formatValue (h : Written f val) :
    ∃ w, formatValue layer f val = some w ∧ Spells layer w [.number val] := by
  have hhex : Spells layer ('0' :: 'x' :: formatHexNumber val) [.number val] := by
    rw [formatHexNumber_eq]
    exact spells_hex val
  cases f
  case ipSrcAddr | ipDstAddr =>
    refine ⟨_, rfl, ?_⟩
    conv in Kind.number val => rw [Words.eq_mapped h]
    exact spells_ipv4 _
  case ipv6SrcAddr | ipv6DstAddr | localAddr | remoteAddr => exact ⟨_, rfl, spells_ipv6 val⟩
  case layer =>
    refine ⟨_, rfl, ?_⟩
    conv in Kind.number val => rw [← ofNarrow_word h]
    cases hn : layerName (val.word 0)
    case none      => exact spells_dec32 _
    case some name => exact spells_layerName hn
  case event =>
    refine ⟨_, rfl, ?_⟩
    conv in Kind.number val => rw [← ofNarrow_word h]
    cases hn : eventName layer (val.word 0)
    case none      => exact spells_dec32 _
    case some name => exact spells_eventName hn
  case packet | packet16 | packet32 | ipId | ipChecksum | tcpChecksum | tcpPayload | tcpPayload16 |
      tcpPayload32 | udpChecksum | udpPayload | udpPayload16 | udpPayload32 | icmpChecksum |
      icmpv6Checksum => exact ⟨_, rfl, hhex⟩
  all_goals exact spells_formatDecNumber val

end Numbers

section Tests

variable {layer : Layer} {rest str w : CString} {ks s : List Kind} {k : Kind} {v : Var} {t : TestExpr}
  {f : Field} {idx : BitVec 32}

-- The symbols of what is written for a variable and for a test.
def varKinds : Var → List Kind
  | .true        => [.true]
  | .false       => [.false]
  | .field f idx =>
    if isArray f then
      .field f :: .squareOpen :: (optionally .minus idx.msb ++
        .number (.ofNarrow idx.abs) :: (optionally .bytes true ++ [.squareClose]))
    else
      [.field f]

def operator : Test → Kind
  | .eq    => .eq
  | .neq   => .neq
  | .lt    => .lt
  | .leq   => .leq
  | .gt    => .gt
  | .geq   => .geq
  | .other => .eof

def comparedKinds (t : TestExpr) : List Kind :=
  varKinds t.var ++ operator t.kind :: (optionally .minus t.val.neg ++ [.number t.val.val])

-- Whether a test is written as a flag, and then whether it is negated.
def asFlag (t : TestExpr) : Option Bool :=
  match t.var with
  | .field f _ => negated t f
  | _          => none

def testKinds (t : TestExpr) : List Kind :=
  match asFlag t with
  | some not => optionally .not not ++ varKinds t.var
  | none     => comparedKinds t

-- The test that they stand for.
def retest (t : TestExpr) : TestExpr :=
  match asFlag t with
  | some not => ⟨if not then .eq else .neq, t.var, makeZero⟩
  | none     => t

theorem testText_eq : testText layer t =
    match asFlag t with
    | some not => (formatVar t.var).map ((if not then "not ".toList else []) ++ ·)
    | none     => comparedText layer t := by
  obtain ⟨kind, var, val⟩ := t
  cases var <;> rfl

-- An index that a filter string can have.
def Var.Indexed : Var → Prop
  | .field f idx => if isArray f then InPacket (dataSize f) idx.msb idx.abs.toNat else idx = 0
  | _            => True

structure Printable (layer : Layer) (t : TestExpr) : Prop extends t.Made layer where
  indexed : t.var.Indexed
  written : ∀ {f idx}, t.var = .field f idx → Written f t.val.val

theorem dataSize_pos : 0 < dataSize f := by
  cases f <;> decide

theorem signed_index {neg : Bool} {n : Nat} (hn : n ≤ 0xFFFF) (hpos : neg → 0 < n) :
    (BitVec.ofInt 32 (signed neg n)).msb = neg ∧ (BitVec.ofInt 32 (signed neg n)).abs.toNat = n := by
  have hmsb : (BitVec.ofInt 32 (signed neg n)).msb = neg := by
    rw [BitVec.msb_eq_decide, BitVec.toNat_ofInt]
    cases neg <;> simp [signed] at hpos ⊢ <;> omega
  refine ⟨hmsb, ?_⟩
  rw [BitVec.abs, hmsb]
  cases neg <;> simp [signed, BitVec.toNat_ofInt] at hpos ⊢ <;> omega

theorem ofInt_signed : BitVec.ofInt 32 (signed idx.msb idx.abs.toNat) = idx := by
  rw [BitVec.abs]
  cases idx.msb
  case false => simp [signed]
  case true  =>
    simp only [signed, if_true, BitVec.neg_eq]
    rw [BitVec.ofInt_neg, BitVec.ofInt_natCast, BitVec.ofNat_toNat, BitVec.setWidth_eq, BitVec.neg_neg]

theorem IsVar.indexed (h : IsVar s v) : v.Indexed := by
  cases h
  case true | false => trivial
  case field f ha => simp [Var.Indexed, makeVar, ha]
  case data f n neg bytes ha hn hi =>
    have hpos := dataSize_pos (f := f)
    simp only [Var.Indexed, makeArrayVar, ha, if_true]
    have hle : indexOf (dataSize f) bytes n ≤ 0xFFFF := by
      rw [InPacket] at hi
      split at hi <;> omega
    have hneg : neg → 0 < indexOf (dataSize f) bytes n := by
      rintro rfl
      exact Nat.lt_of_lt_of_le hpos hi.1
    obtain ⟨hm, hk⟩ := signed_index hle hneg
    rwa [hm, hk]

theorem isVar_varKinds (h : v.Indexed) : IsVar (varKinds v) v := by
  cases v
  case true => exact .true
  case false => exact .false
  case field f idx =>
    rw [varKinds]
    cases ha : isArray f
    case false =>
      obtain rfl : idx = 0 := by simpa [Var.Indexed, ha] using h
      exact .field ha
    case true =>
      have h : InPacket (dataSize f) idx.msb idx.abs.toNat := by simpa [Var.Indexed, ha] using h
      have hle : idx.abs.toNat ≤ mtuMax := by
        rw [InPacket] at h
        rw [mtuMax]
        split at h <;> omega
      have hi : indexOf (dataSize f) true (.ofNarrow idx.abs) = idx.abs.toNat := rfl
      have hv : Var.field f idx = makeArrayVar f (signed idx.msb (indexOf (dataSize f) true (.ofNarrow idx.abs))) := by
        rw [hi, makeArrayVar, ofInt_signed]
      rw [if_pos rfl]
      conv in Var.field f idx => rw [hv]
      exact .data idx.msb true ha (value_ofNarrow ▸ hle) (hi ▸ h)

theorem spells_keyword (hm : (w, k) ∈ tokenInfo) (hk : k ∈ [.true, .false, .not, .and, .or]) :
    Spells layer w [k] ∧ Tight w := by
  refine spells_name hm ?_
  rw [word, tokenLookup_eq_some_iff.mpr hm]
  simp only [List.mem_cons, List.not_mem_nil, or_false] at hk
  obtain rfl | rfl | rfl | rfl | rfl := hk
  all_goals rfl

theorem reads_var (hv : v.Valid layer) (hi : v.Indexed) (h : Reads layer rest ks) (hf : Follows True rest) :
    ∃ str, formatVar v = some str ∧ Reads layer (str ++ rest) (varKinds v ++ ks) := by
  cases v
  case true =>
    have hw : Spells layer "true".toList [.true] ∧ Tight "true".toList :=
      spells_keyword (by decide +kernel) (by simp)
    exact ⟨_, rfl, h.word hw.1 (hf.mono fun _ => hw.2)⟩
  case false =>
    have hw : Spells layer "false".toList [.false] ∧ Tight "false".toList :=
      spells_keyword (by decide +kernel) (by simp)
    exact ⟨_, rfl, h.word hw.1 (hf.mono fun _ => hw.2)⟩
  case field f idx =>
    have hw := spells_fieldName hv
    rw [formatVar, varKinds]
    cases ha : isArray f
    case false => exact ⟨_, rfl, h.word hw.1 (hf.mono fun _ => hw.2)⟩
    case true =>
      have hi : InPacket (dataSize f) idx.msb idx.abs.toNat := by simpa [Var.Indexed, ha] using hi
      have hclose : Reads layer (']' :: rest) (.squareClose :: ks) := h.symbol rfl rfl
      have hindex := hclose.word (spells_index idx.abs) (.inl (by simp; decide))
      have hne : idx ≠ .intMin 32 := by
        rintro rfl
        exact absurd hi.2 (by decide)
      have hopen (str : CString) {s : List Kind} (h : Reads layer str s) :
          Reads layer ((fieldName f).toList ++ '[' :: str) (.field f :: .squareOpen :: s) :=
        (h.symbol (c := '[') rfl rfl).word hw.1 (.inl (by simp; decide))
      rw [formatIndex, if_neg hne]
      rw [BitVec.abs] at hindex ⊢
      cases hm : idx.msb <;> simp only [hm, if_true, Bool.false_eq_true, if_false] at hindex ⊢
      case false => exact ⟨_, rfl, by simpa [optionally] using hopen _ hindex⟩
      case true => exact ⟨_, rfl, by simpa [optionally] using hopen _ (hindex.symbol (c := '-') rfl rfl)⟩

theorem reads_comparison {test : Test} (hk : test ≠ .other) (h : Reads layer rest ks) :
    Reads layer ((comparison test).toList ++ rest) (operator test :: ks) := by
  cases test
  case other => exact absurd rfl hk
  all_goals exact (h.space.symbol rfl rfl).space

theorem comparison_blank {test : Test} (hk : test ≠ .other) : ∃ s, (comparison test).toList = ' ' :: s := by
  cases test
  case other => exact absurd rfl hk
  all_goals exact ⟨_, rfl⟩

theorem test_operator {test : Test} (hk : test ≠ .other) : (operator test).test = some test := by
  cases test
  case other => exact absurd rfl hk
  all_goals rfl

theorem isTest_testKinds (hk : t.kind ≠ .other) (hi : t.var.Indexed) : IsTest (testKinds t) (retest t) := by
  have hv := isVar_varKinds hi
  have hc : IsTest (comparedKinds t) t := .compare 0 t.val.neg hv (test_operator hk)
  rw [testKinds, retest]
  cases asFlag t
  case none => exact hc
  case some not =>
    cases not
    case false => exact .bare 0 hv
    case true  => exact .bare 1 hv

-- A colon behind the number of a test is not taken for a part of it.
def apart (layer : Layer) (t : TestExpr) : Bool :=
  (numberText layer t).all fun w => Tight w

theorem spells_number (hp : Printable layer t) :
    ∃ w, numberText layer t = some w ∧ Spells layer w [.number t.val.val] := by
  rw [numberText]
  split
  case h_1 f idx hf => exact spells_formatValue (hp.written hf)
  case h_2 => exact spells_formatDecNumber _

theorem reads_compared (hp : Printable layer t) (h : Reads layer rest ks) (hf : Follows (apart layer t) rest) :
    ∃ str, comparedText layer t = some str ∧ Reads layer (str ++ rest) (comparedKinds t ++ ks) := by
  obtain ⟨w, hw, hs⟩ := spells_number hp
  have hnumber := h.word hs (hf.mono fun ha => by simpa [apart, hw] using ha)
  have hminus : Reads layer ((if t.val.neg then ['-'] else []) ++ (w ++ rest))
      (optionally .minus t.val.neg ++ (.number t.val.val :: ks)) := by
    cases t.val.neg
    case false => exact hnumber
    case true  => exact hnumber.symbol (c := '-') rfl rfl
  have hcmp := reads_comparison hp.kind hminus
  have hblank : ∀ c ∈ ((comparison t.kind).toList ++ ((if t.val.neg then ['-'] else []) ++ (w ++ rest))).head?,
      isWordChar c = false := by
    obtain ⟨s, hs⟩ := comparison_blank hp.kind
    rw [hs]
    rintro c ⟨⟩
    decide
  obtain ⟨var, hvar, hread⟩ := reads_var hp.valid hp.indexed hcmp (.inl hblank)
  refine ⟨_, by rw [comparedText, hvar, hw]; rfl, ?_⟩
  simpa [comparedKinds] using hread

theorem reads_test (hp : Printable layer t) (h : Reads layer rest ks) (hf : Follows (apart layer t) rest) :
    ∃ str, testText layer t = some str ∧ Reads layer (str ++ rest) (testKinds t ++ ks) := by
  have hc := reads_compared hp h hf
  rw [testText_eq, testKinds]
  cases asFlag t
  case none => exact hc
  case some not =>
    obtain ⟨var, hvar, hread⟩ := reads_var hp.valid hp.indexed h (hf.mono fun _ => trivial)
    refine ⟨_, by rw [hvar]; rfl, ?_⟩
    cases not
    case false => exact hread
    case true  =>
      have hw : Spells layer "not".toList [.not] ∧ Tight "not".toList :=
        spells_keyword (by decide +kernel) (by simp)
      exact hread.space.word hw.1 (.inl (by simp; decide))

end Tests

section Expressions

variable {layer : Layer} {rest w str str' str'' : CString} {ks s s' s'' : List Kind} {k : Kind}
  {f : Formula TestExpr} {top and : Bool} {p p' q q' : Prop}

def parenKinds (b : Bool) (s : List Kind) : List Kind :=
  if b then .roundOpen :: (s ++ [.roundClose]) else s

-- The symbols of what is written for an expression.
def exprKinds : Formula TestExpr → (topLevel and : Bool) → List Kind
  | .const b,     _,   _   => [if b then .true else .false]
  | .ask t,       _,   _   => testKinds t
  | .and a b,     top, and => parenKinds (!top && !and) (exprKinds a false true ++ .and :: exprKinds b false true)
  | .or a b,      top, and => parenKinds (!top && and) (exprKinds a false false ++ .or :: exprKinds b false false)
  | .ite c th el, _,   _   => .roundOpen :: (exprKinds c true false ++ .question :: (exprKinds th true false ++
    .colon :: (exprKinds el true false ++ [.roundClose])))

-- The test that the text of an expression ends with, if nothing closes it.
def ending : Formula TestExpr → (topLevel and : Bool) → Option TestExpr
  | .const _,   _,   _   => none
  | .ask t,     _,   _   => some t
  | .and _ b,   top, and => if !top && !and then none else ending b false true
  | .or _ b,    top, and => if !top && and then none else ending b false false
  | .ite _ _ _, _,   _   => none

-- Where an alternative follows, the colon has to be told from the number before it.
def readable (layer : Layer) : Formula TestExpr → Bool
  | .const _ | .ask _ => true
  | .and a b          => readable layer a && readable layer b
  | .or a b           => readable layer a && readable layer b
  | .ite c th el      => readable layer c && readable layer th && readable layer el &&
    (ending th true false).all (apart layer)

-- A text with its symbols, whatever follows.
structure Renders (layer : Layer) (str : CString) (s : List Kind) (tight : Prop) : Prop where
  reads : ∀ {rest ks}, Reads layer rest ks → Follows tight rest → Reads layer (str ++ rest) (s ++ ks)

theorem Renders.mono (h : Renders layer str s p) (hq : q → p) : Renders layer str s q where
  reads hr hf := h.reads hr (hf.mono hq)

theorem renders_keyword (hm : (w, k) ∈ tokenInfo) (hk : k ∈ [.true, .false, .not, .and, .or]) :
    Renders layer w [k] p where
  reads h hf :=
    have hw := spells_keyword hm hk
    h.word hw.1 (hf.mono fun _ => hw.2)

theorem follows_blank : Follows p (' ' :: rest) :=
  .inl (by simp; decide)

-- Two texts with `and` or `or` between them.
theorem Renders.between (ha : Renders layer str s p) (hk : Renders layer w [k] True)
    (hb : Renders layer str' s' q) : Renders layer (str ++ (' ' :: w ++ [' ']) ++ str') (s ++ k :: s') q where
  reads hr hf := by
    have h := ha.reads (hk.reads (hb.reads hr hf).space follows_blank).space follows_blank
    simpa using h

theorem Renders.close (h : Renders layer str s p) (hr : Reads layer rest ks) :
    Reads layer (str ++ ')' :: rest) (s ++ .roundClose :: ks) :=
  h.reads (hr.symbol rfl rfl) (.inl (by simp; decide))

theorem Renders.parens {b : Bool} (h : Renders layer str s p) (hq : b = false → q → p) :
    Renders layer (parens b str) (parenKinds b s) q where
  reads hr hf := by
    cases b
    case false => exact h.reads hr (hf.mono (hq rfl))
    case true  =>
      have := (h.close hr).symbol (c := '(') rfl rfl
      simpa [Text.parens, parenKinds] using this

theorem renders_test {t : TestExpr} (hp : Printable layer t) :
    ∃ str, testText layer t = some str ∧ Renders layer str (testKinds t) (apart layer t) := by
  obtain ⟨str, hs, -⟩ := reads_test hp reads_nil (.inl (by simp))
  refine ⟨str, hs, ⟨fun h hf => ?_⟩⟩
  obtain ⟨str', hs', hr⟩ := reads_test hp h hf
  cases hs.symm.trans hs'
  exact hr

theorem renders_question (hc : Renders layer str s p) (ht : Renders layer str' s' q) (hq : q)
    (he : Renders layer str'' s'' p') :
    Renders layer ('(' :: (str ++ "? ".toList ++ str' ++ ": ".toList ++ str'' ++ [')']))
      (.roundOpen :: (s ++ .question :: (s' ++ .colon :: (s'' ++ [.roundClose])))) q' where
  reads {rest ks} hr _ := by
    have helse : Reads layer (':' :: ' ' :: (str'' ++ ')' :: rest)) (.colon :: (s'' ++ .roundClose :: ks)) :=
      (he.close hr).space.symbol rfl rfl
    have hthen := (ht.reads helse (.inr ⟨hq, _, rfl⟩)).space.symbol (c := '?') rfl rfl
    have hif := (hc.reads hthen (.inl (by simp; decide))).symbol (c := '(') rfl rfl
    simpa using hif

-- One case per kind of expression.
theorem renders_expr (hp : ∀ t ∈ f.questions, Printable layer t) (hr : readable layer f) :
    ∃ str, exprText layer f top and = some str ∧
      Renders layer str (exprKinds f top and) ((ending f top and).all (apart layer)) := by
  induction f generalizing top and
  case const b =>
    cases b
    · exact ⟨_, rfl, renders_keyword (by decide +kernel) (by simp)⟩
    · exact ⟨_, rfl, renders_keyword (by decide +kernel) (by simp)⟩
  case ask t =>
    obtain ⟨str, hs, h⟩ := renders_test (hp t List.mem_cons_self)
    exact ⟨str, hs, h.mono id⟩
  case and a b iha ihb =>
    have hr : readable layer a ∧ readable layer b := by simpa [readable] using hr
    obtain ⟨sa, ha, hra⟩ := iha (fun t ht => hp t (List.mem_append_left _ ht)) hr.1
    obtain ⟨sb, hb, hrb⟩ := ihb (fun t ht => hp t (List.mem_append_right _ ht)) hr.2
    refine ⟨_, by rw [exprText, ha, hb]; rfl, ?_⟩
    have hk : Renders layer "and".toList [.and] True := renders_keyword (by decide +kernel) (by simp)
    exact (hra.between hk hrb).parens fun hpar he => by rwa [ending, hpar] at he
  case or a b iha ihb =>
    have hr : readable layer a ∧ readable layer b := by simpa [readable] using hr
    obtain ⟨sa, ha, hra⟩ := iha (fun t ht => hp t (List.mem_append_left _ ht)) hr.1
    obtain ⟨sb, hb, hrb⟩ := ihb (fun t ht => hp t (List.mem_append_right _ ht)) hr.2
    refine ⟨_, by rw [exprText, ha, hb]; rfl, ?_⟩
    have hk : Renders layer "or".toList [.or] True := renders_keyword (by decide +kernel) (by simp)
    exact (hra.between hk hrb).parens fun hpar he => by rwa [ending, hpar] at he
  case ite c th el ihc iht ihe =>
    have hr : ((readable layer c ∧ readable layer th) ∧ readable layer el) ∧
        (ending th true false).all (apart layer) := by
      simpa only [readable, Bool.and_eq_true] using hr
    obtain ⟨sc, hc, hrc⟩ := ihc (fun t ht => hp t (by simp [Formula.questions, ht])) hr.1.1.1
    obtain ⟨st, ht, hrt⟩ := iht (fun t ht => hp t (by simp [Formula.questions, ht])) hr.1.1.2
    obtain ⟨se, he, hre⟩ := ihe (fun t ht => hp t (by simp [Formula.questions, ht])) hr.1.2
    exact ⟨_, by rw [exprText, hc, ht, he]; rfl, renders_question hrc hrt hr.2 hre⟩

end Expressions

section Derivations

variable {s s₁ s₂ : List Kind} {a b e : Expr} {f g h : Formula TestExpr}

-- An expression with the verdicts of a formula and no more tests than it.
structure Stands (f : Formula TestExpr) (e : Expr) : Prop where
  size : e.size ≤ f.questions.length
  eval : ∀ answer, e.eval (simplified answer) = f.eval fun t => simplified answer (retest t)

theorem stands_const {b : Bool} : Stands (.const b) (.test ⟨.neq, if b then .true else .false, makeZero⟩) := by
  cases b
  · exact ⟨by decide, fun _ => rfl⟩
  · exact ⟨by decide, fun _ => rfl⟩

theorem stands_ask {t : TestExpr} : Stands (.ask t) (.test (retest t)) :=
  ⟨List.countP_le_length, fun _ => rfl⟩

theorem Stands.and (ha : Stands f a) (hb : Stands g b) : Stands (.and f g) (.and a b) where
  size := by
    rw [size_and, Formula.questions, List.length_append]
    exact Nat.add_le_add ha.size hb.size
  eval answer := by simp only [Expr.eval, Formula.eval, ha.eval, hb.eval]

theorem Stands.or (ha : Stands f a) (hb : Stands g b) : Stands (.or f g) (.or a b) where
  size := by
    rw [size_or, Formula.questions, List.length_append]
    exact Nat.add_le_add ha.size hb.size
  eval answer := by simp only [Expr.eval, Formula.eval, ha.eval, hb.eval]

theorem Stands.question (he : Stands f e) (ha : Stands g a) (hb : Stands h b) :
    Stands (.ite f g h) (.question e a b) where
  size := by
    rw [size_question, Formula.questions, List.length_append, List.length_append]
    exact Nat.add_le_add (Nat.add_le_add he.size ha.size) hb.size
  eval answer := by simp only [Expr.eval, Formula.eval, he.eval, ha.eval, hb.eval]

theorem Stands.congr {e' : Expr} (h : Stands f e) (hs : e'.size = e.size)
    (he : ∀ ask, e'.eval ask = e.eval ask) : Stands f e' :=
  ⟨hs ▸ h.size, fun answer => (he _).trans (h.eval answer)⟩

-- What is written without parentheses associates to the other side.
theorem derives_and (ha : Derives .conjunction s₁ a) (hb : Derives .conjunction s₂ b) :
    ∃ e, Derives .conjunction (s₁ ++ .and :: s₂) e ∧ e.size = (Expr.and a b).size ∧
      ∀ ask, e.eval ask = (Expr.and a b).eval ask := by
  generalize hc : Category.conjunction = c at hb
  induction hb
  case single hb _ => exact ⟨_, ha.and hb, rfl, fun _ => rfl⟩
  case and s₁' s₂' a' b' _ hb iha _ =>
    obtain ⟨e, he, hs, hev⟩ := iha hc
    refine ⟨.and e b', ?_, by simp [hs, Nat.add_assoc], fun ask => ?_⟩
    · have := he.and hb
      simpa using this
    · rw [Expr.eval, hev]
      simp only [Expr.eval, Option.bind_assoc]
      congr 1
      funext r
      cases r <;> rfl
  all_goals cases hc

theorem derives_or (ha : Derives .filter s₁ a) (hb : Derives .filter s₂ b) :
    ∃ e, Derives .filter (s₁ ++ .or :: s₂) e ∧ e.size = (Expr.or a b).size ∧
      ∀ ask, e.eval ask = (Expr.or a b).eval ask := by
  generalize hc : Category.filter = c at ha
  induction ha
  case conjunction ha _ => exact ⟨_, ha.or hb, rfl, fun _ => rfl⟩
  case or s₁' s₂' a' b' ha _ _ ihb =>
    obtain ⟨e, he, hs, hev⟩ := ihb hc
    refine ⟨.or a' e, ?_, by simp [hs, Nat.add_assoc], fun ask => ?_⟩
    · have := ha.or he
      simpa using this
    · simp only [Expr.eval, hev, Option.bind_assoc]
      congr 1
      funext r
      cases r <;> rfl
  all_goals cases hc

-- An operand that needs no parentheses where its category is expected.
def level (and : Bool) : Category :=
  if and then .conjunction else .filter

variable {top and : Bool}

theorem derives_level (h : Derives .arg s e) : Derives (level and) s e := by
  cases and
  · exact .conjunction (.single h)
  · exact .single h

-- One case per kind of expression. Below a conjunction, and only there, disjunctions are put in
-- parentheses.
theorem derives_expr (hp : ∀ t ∈ f.questions, t.kind ≠ .other ∧ t.var.Indexed) (ht : and → top = false) :
    ∃ e, Derives (level and) (exprKinds f top and) e ∧ Stands f e := by
  induction f generalizing top and
  case const b =>
    refine ⟨_, derives_level (.test ?_), stands_const⟩
    cases b
    · exact .bare 0 .false
    · exact .bare 0 .true
  case ask t =>
    obtain ⟨hk, hi⟩ := hp t List.mem_cons_self
    exact ⟨_, derives_level (.test (isTest_testKinds hk hi)), stands_ask⟩
  case and f g ihf ihg =>
    obtain ⟨a, ha, hsa⟩ := @ihf false true (fun t ht => hp t (List.mem_append_left _ ht)) fun _ => rfl
    obtain ⟨b, hb, hsb⟩ := @ihg false true (fun t ht => hp t (List.mem_append_right _ ht)) fun _ => rfl
    obtain ⟨e, he, hs, hev⟩ := derives_and ha hb
    refine ⟨e, ?_, (hsa.and hsb).congr hs hev⟩
    rw [exprKinds, parenKinds]
    split
    case isTrue  => exact derives_level (.paren (.conjunction he))
    case isFalse =>
      cases and
      · exact .conjunction he
      · exact he
  case or f g ihf ihg =>
    obtain ⟨a, ha, hsa⟩ := @ihf false false (fun t ht => hp t (List.mem_append_left _ ht)) (by simp)
    obtain ⟨b, hb, hsb⟩ := @ihg false false (fun t ht => hp t (List.mem_append_right _ ht)) (by simp)
    obtain ⟨e, he, hs, hev⟩ := derives_or ha hb
    refine ⟨e, ?_, (hsa.or hsb).congr hs hev⟩
    rw [exprKinds, parenKinds]
    split
    case isTrue  => exact derives_level (.paren he)
    case isFalse hn =>
      cases and
      · exact he
      · simp [ht rfl] at hn
  case ite c th el ihc iht ihe =>
    obtain ⟨e, he, hse⟩ := @ihc true false (fun t ht => hp t (by simp [Formula.questions, ht])) (by simp)
    obtain ⟨a, ha, hsa⟩ := @iht true false (fun t ht => hp t (by simp [Formula.questions, ht])) (by simp)
    obtain ⟨b, hb, hsb⟩ := @ihe true false (fun t ht => hp t (by simp [Formula.questions, ht])) (by simp)
    exact ⟨_, derives_level (.question he ha hb), hse.question hsa hsb⟩

end Derivations

section Answers

variable {x : Input} {t : TestExpr} {f : Field} {idx : BitVec 32} {not : Bool}

-- What can be read from a flag.
def Flagged (r : Reading) : Prop :=
  r = .error ∨ r = .absent ∨ ∃ b, r = .flag b

theorem flagged_ofHeader {α : Type} {hdr : Option α} {g : α → Bool} :
    Flagged (.ofHeader hdr fun a => .flag (g a)) := by
  cases hdr
  case none   => exact .inr (.inl rfl)
  case some a => exact .inr (.inr ⟨g a, rfl⟩)

theorem flagged_layered {network forward : Reading} {event : DataFlow → Reading} (hn : Flagged network)
    (hf : Flagged forward) (he : ∀ d, Flagged (event d)) : Flagged (x.layered network forward event) := by
  rw [Input.layered]
  split
  case h_1 => exact hn
  case h_2 => exact hf
  case h_5 => exact .inl rfl
  all_goals exact he _

theorem flagged_readField (hf : isFlag f) (hz : f ≠ .zero) (arg : Words) : Flagged (readField x f arg) := by
  have hflag (b : Bool) : Flagged (.flag b) := .inr (.inr ⟨b, rfl⟩)
  cases f <;> cases hf
  case zero => exact absurd rfl hz
  case icmp | icmpv6 | tcp | udp =>
    simp only [readField]
    exact flagged_layered (hflag _) (hflag _) fun _ => hflag _
  all_goals first
    | exact flagged_ofHeader
    | exact hflag _

theorem negated_some (h : negated t f = some not) : isFlag f ∧ (t.val.val.word 0).toNat ≤ 1 ∧
    ((t.kind = .eq ∧ not = decide (t.val.val.word 0 = 0)) ∨
      (t.kind = .neq ∧ not = decide (t.val.val.word 0 ≠ 0))) := by
  rw [negated] at h
  split_ifs at h with hc
  refine ⟨hc.1, hc.2.2.2.2, ?_⟩
  cases hk : t.kind
  case eq =>
    simp only [hk, Option.some.injEq] at h
    exact .inl ⟨rfl, h.symm⟩
  case neq =>
    simp only [hk, Option.some.injEq] at h
    exact .inr ⟨rfl, h.symm⟩
  all_goals
    simp only [hk] at h
    cases h

-- The tests that the compiler leaves alone. The sign of a number is not written where the test is
-- written as a flag.
structure Settled (t : TestExpr) : Prop where
  ruled : t.ruled = none
  sign  : (asFlag t).isSome → t.val.neg = false

theorem ruled_zero (hk : t.kind ≠ .other) (hv : t.var = .field .zero idx) : t.ruled.isSome := by
  simp only [TestExpr.ruled, hv]
  exact decided_isSome hk

theorem ruled_flag (hf : isFlag f) (hz : f ≠ .zero) :
    (TestExpr.mk (if not then .eq else .neq) (.field f idx) makeZero).ruled = none := by
  cases f <;> cases hf
  case zero => exact absurd rfl hz
  all_goals cases not <;> rfl

theorem array_of_flag (hf : isFlag f) : isArray f = false := by
  cases f <;> first | rfl | cases hf

-- On a flag, the two tests have the same answer.
theorem answer_flag_eq (hf : isFlag f) (hz : f ≠ .zero) (hv : validateField x.layer f)
    (hvar : t.var = .field f idx) (hn : negated t f = some not) (hs : t.val.neg = false) :
    answer x (TestExpr.insn ⟨if not then .eq else .neq, t.var, makeZero⟩) = answer x t.insn := by
  obtain ⟨-, hle, hkind⟩ := negated_some hn
  have hfield : t.insn.field = f := by simp [TestExpr.insn, emitTest, hvar, kindToField]
  have hfield' : (TestExpr.insn ⟨if not then .eq else .neq, t.var, makeZero⟩).field = f := by
    simp [TestExpr.insn, emitTest, hvar, kindToField]
  have hkind' : t.insn.test ≠ .other := by
    rcases hkind with ⟨hk, -⟩ | ⟨hk, -⟩ <;> simp [TestExpr.insn, emitTest, hk]
  have hsame (a : Words) : readField x f a = readField x f .zero :=
    readField_congr fun ha => by rw [array_of_flag hf] at ha; cases ha
  rcases flagged_readField (x := x) hf hz .zero with hr | hr | ⟨b, hr⟩
  case inl => exact absurd hr (readField_ne_error hv _)
  case inr.inl =>
    rw [answer_absent (hfield ▸ hv) (hfield ▸ (hsame _).trans hr),
      answer_absent (hfield' ▸ hv) (hfield' ▸ (hsame _).trans hr)]
  case inr.inr =>
    rw [answer_flag (hfield ▸ hv) (hfield ▸ (hsame _).trans hr) hkind',
      answer_flag (hfield' ▸ hv) (hfield' ▸ (hsame _).trans hr) (by cases not <;> simp [TestExpr.insn, emitTest])]
    have harg : t.insn.arg.word 0 = t.val.val.word 0 := word_emitArg
    have hneg : t.insn.neg = false := hs
    have harg' : (TestExpr.insn ⟨if not then .eq else .neq, t.var, makeZero⟩).arg.word 0 = 0#32 := word_emitArg
    have hw : t.val.val.word 0 = 0#32 ∨ t.val.val.word 0 = 1#32 := by
      rw [← BitVec.toNat_inj, ← BitVec.toNat_inj]
      simp
      omega
    have htest : t.insn.test = t.kind := rfl
    have htest' : (TestExpr.insn ⟨if not then .eq else .neq, t.var, makeZero⟩).test = if not then .eq else .neq := rfl
    have hneg' : (TestExpr.insn ⟨if not then .eq else .neq, t.var, makeZero⟩).neg = false := rfl
    rw [harg, hneg, harg', htest, htest', hneg']
    rcases hkind with ⟨hk, rfl⟩ | ⟨hk, rfl⟩ <;> rcases hw with hw | hw <;> rw [hk, hw] <;> cases b <;> rfl

-- A test means the same when it has been written and read.
theorem simplified_retest (hv : t.var.Valid x.layer) (hk : t.kind ≠ .other) (hs : Settled t) :
    simplified (fun t => answer x t.insn) (retest t) = answer x t.insn := by
  rw [retest]
  cases ha : asFlag t
  case none => exact simplified_of_not_ruled hs.ruled
  case some not =>
    cases hvar : t.var <;> simp only [asFlag, hvar] at ha
    case true | false => cases ha
    case field f idx =>
      have hflag := (negated_some ha).1
      have hz : f ≠ .zero := by
        rintro rfl
        have := ruled_zero hk hvar
        rw [hs.ruled] at this
        cases this
      have hneg := hs.sign (by simp [asFlag, hvar, ha])
      rw [hvar] at hv
      have hans := answer_flag_eq hflag hz hv hvar ha hneg
      rw [hvar] at hans
      exact (simplified_of_not_ruled (ruled_flag hflag hz)).trans hans

end Answers

section Readback

variable {layer : Layer} {text : CString} {ks : List Kind} {object : List Insn} {f : Formula TestExpr}
  {room : Nat}

theorem Reads.head_ne (h : Reads layer text ks) : text.head? ≠ some '@' := by
  intro hh
  obtain ⟨rest, rfl⟩ : ∃ rest, text = '@' :: rest := by
    cases text <;> simp_all
  have herr : nextToken layer 0 ('@' :: rest) = .error ⟨.badToken, some 1⟩ := by
    rw [nextToken_of_head (by decide), lex]
    rfl
  cases h
  case last h =>
    obtain ⟨tok, h⟩ := h 0
    rw [herr] at h
    cases h
  case next h =>
    obtain ⟨toks, j, h, -⟩ := h 0
    rw [herr] at h
    cases h

-- A filter is formatted as a text that is compiled to a filter with the same verdicts. All of its
-- tests have to be such that they can be written, and no number may run into a colon behind it.
theorem compileFilter_exprText (hf : Formattable object) (hu : Unsigned object)
    (hp : ∀ t, Comes object t → Printable layer t ∧ Settled t)
    (hm : 4 * object.length * exprSize ≤ room) (hd : decompileFilter room object = some (some f))
    (hr : readable layer f)
    (hs : f.questions.length ≤ filterMaxLen) (hk : (exprKinds f true false).length < tokensMax - 1)
    (hn : nesting (exprKinds f true false) + 3 ≤ maxDepth + 1) :
    ∃ text object', exprText layer f true false = some text ∧
      compileFilter layer text = some (.ok object') ∧
      ∀ {x r}, x.layer = layer → executeFilter object x = some r → executeFilter object' x = some r := by
  obtain ⟨f', k, hd', hcomes, heval⟩ := decompileFilter_spec hf
  obtain rfl : f' = f := by
    rw [hd' hm] at hd
    obtain ⟨_, -, he⟩ := Option.map_eq_some_iff.mp (Option.some.inj hd)
    exact he
  have hprint : ∀ t ∈ f'.questions, Printable layer t := fun t ht => (hp t (hcomes ht)).1
  obtain ⟨text, htext, hrender⟩ : ∃ str, exprText layer f' true false = some str ∧
      Renders layer str (exprKinds f' true false) ((ending f' true false).all (apart layer)) :=
    renders_expr hprint hr
  have hreads : Reads layer text (exprKinds f' true false) := by
    simpa using hrender.reads reads_nil (.inl (by simp))
  obtain ⟨e, hder, hstands⟩ := @derives_expr f' true false
    (fun t ht => ⟨(hprint t ht).kind, (hprint t ht).indexed⟩) (by simp)
  have hder : Derives .filter (exprKinds f' true false) e := hder
  obtain ⟨pre, p, htok, hkinds⟩ := tokenizeFilter_of_reads hreads hk
  obtain ⟨object', hobj⟩ := (compileExpr_ok_iff hder.whole).mpr (hstands.size.trans hs)
  refine ⟨text, object', htext, ?_, fun {x r} hl hx => ?_⟩
  · rw [compileFilter_of_tokens hreads.head_ne htok, compileTokens,
      parse_of_derives rfl (by rwa [hkinds]) (by rwa [hkinds])]
    exact hobj
  · rw [(executeFilter_compileExpr hobj).2, hstands.eval, ← heval hu hx]
    refine Formula.eval_congr fun t ht => ?_
    obtain ⟨hpt, hst⟩ := hp t (hcomes ht)
    exact simplified_retest (hl ▸ hpt.valid) hpt.kind hst

set_option maxRecDepth 10000 in
theorem compileFilter_exprText_web :
    ∃ text object', exprText .network webFormula true false = some text ∧
      compileFilter .network text = some (.ok object') ∧
      ∀ {x r}, x.layer = .network → executeFilter webObject x = some r →
        executeFilter object' x = some r := by
  have hd : decompileFilter (roomAfter .network webText) webObject = some (some webFormula) := by
    decide +kernel
  have hf : Formattable webObject := formattable_of_length (by decide) (by decide) (by decide)
  have hu : Unsigned webObject := by
    unfold Unsigned
    decide
  have hp : ∀ t, Comes webObject t → Printable .network t ∧ Settled t := by
    rintro t ⟨insn, hm, s, f, hd⟩
    simp only [webObject, List.mem_cons, List.not_mem_nil, or_false] at hm
    rcases hm with rfl | rfl | rfl | rfl | rfl <;> cases hd
    all_goals exact ⟨⟨⟨by simp, rfl⟩, rfl, fun h => by cases h; trivial⟩, by decide +kernel, by simp⟩
  exact compileFilter_exprText hf hu hp (by decide +kernel) hd rfl (by decide) (by decide +kernel)
    (by decide +kernel)

end Readback

end Wd.Text
