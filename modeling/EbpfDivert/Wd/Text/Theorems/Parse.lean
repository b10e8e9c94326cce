import EbpfDivert.Wd.Text.Grammar

-- The parser accepts the language of filters, up to a depth.
namespace Wd.Text

-- The tokens up to `rest` are those of the symbols.
def Spans (s : List Kind) (toks rest : List Token) : Prop :=
  ∃ pre, toks = pre ++ rest ∧ pre.map Token.kind = s

section Spans

variable {s s' : List Kind} {toks mid rest : List Token} {k : Kind} {b : Bool}

@[simp]
theorem peek_cons {tok : Token} : peek (tok :: toks) = tok := rfl

@[simp]
theorem spans_nil : Spans [] toks rest ↔ toks = rest := by
  simp [Spans]

theorem spans_cons (hk : k ≠ .eof) :
    Spans (k :: s) toks rest ↔ (peek toks).kind = k ∧ Spans s toks.tail rest := by
  constructor
  case mp =>
    rintro ⟨pre, rfl, h⟩
    obtain ⟨tok, pre', rfl, rfl, rfl⟩ := List.map_eq_cons_iff.mp h
    exact ⟨rfl, pre', rfl, rfl⟩
  case mpr =>
    rintro ⟨rfl, pre, h, rfl⟩
    cases toks
    case nil => exact absurd rfl hk
    case cons tok toks => exact ⟨tok :: pre, by simpa using h, rfl⟩

theorem spans_append : Spans (s ++ s') toks rest ↔ ∃ mid, Spans s toks mid ∧ Spans s' mid rest := by
  constructor
  case mp =>
    rintro ⟨pre, rfl, h⟩
    obtain ⟨pre₁, pre₂, rfl, rfl, rfl⟩ := List.map_eq_append_iff.mp h
    exact ⟨pre₂ ++ rest, ⟨pre₁, by simp, rfl⟩, pre₂, rfl, rfl⟩
  case mpr =>
    rintro ⟨mid, ⟨pre₁, rfl, rfl⟩, pre₂, rfl, rfl⟩
    exact ⟨pre₁ ++ pre₂, by simp, by simp⟩

theorem Spans.trans (h : Spans s toks mid) (h' : Spans s' mid rest) : Spans (s ++ s') toks rest :=
  spans_append.mpr ⟨mid, h, h'⟩

theorem Spans.length_le (h : Spans s toks rest) : rest.length + s.length = toks.length := by
  obtain ⟨pre, rfl, rfl⟩ := h
  simp [Nat.add_comm]

theorem spans_optional (toks : List Token) (hk : k ≠ .eof) :
    Spans (optionally k (optional k toks).1) toks (optional k toks).2 := by
  rw [optional]
  split
  case isTrue h => exact (spans_cons hk).mpr ⟨h, spans_nil.mpr rfl⟩
  case isFalse => exact spans_nil.mpr rfl

theorem optional_of_spans (hk : k ≠ .eof) (h : Spans (optionally k b) toks rest)
    (hr : (peek rest).kind ≠ k) : optional k toks = (b, rest) := by
  cases b
  case false =>
    rw [spans_nil.mp h, optional, if_neg hr]
  case true =>
    obtain ⟨hp, ht⟩ := (spans_cons hk).mp h
    rw [optional, if_pos hp, spans_nil.mp ht]

end Spans

section Tests

variable {s : List Kind} {toks rest : List Token} {v : Var} {t : TestExpr} {size idx : Nat} {n : Words}
  {neg : Bool} {i : Int} {e : Expr}

theorem numberOob_eq_false : numberOob n = false ↔ n.value ≤ mtuMax := by
  have hv := n.value_eq_words
  have hw (k : Nat) : n.word k = 0 ↔ (n.word k).toNat = 0 := by
    rw [← BitVec.toNat_inj]
    rfl
  rw [numberOob, decide_eq_false_iff_not]
  simp only [ne_eq, not_or, not_not, hw, mtuMax]
  omega

theorem indexOob_eq_false (hs : size ≤ 0xFFFF) : indexOob size neg idx = false ↔ InPacket size neg idx := by
  cases neg <;> simp [indexOob, InPacket] <;> omega

theorem dataSize_le (f : Field) : 1 ≤ dataSize f ∧ dataSize f ≤ 4 := by
  cases f <;> decide

-- What stands between the brackets.
def indexSymbols (neg bytes : Bool) (n : Words) : List Kind :=
  .squareOpen :: (optionally .minus neg ++ .number n :: (optionally .bytes bytes ++ [.squareClose]))

theorem parseIndex_ok (h : parseIndex size toks = (.ok i, rest)) :
    ∃ neg bytes n, Spans (indexSymbols neg bytes n) toks rest ∧ numberOob n = false ∧
      indexOob size neg (indexOf size bytes n) = false ∧ i = signed neg (indexOf size bytes n) := by
  have hneg := spans_optional toks.tail (k := .minus) (by simp)
  simp only [parseIndex] at h
  split at h
  case isTrue => cases h
  case isFalse ho =>
    split at h
    case h_2 => cases h
    case h_1 n hn =>
      have hbytes := spans_optional (optional .minus toks.tail).2.tail (k := .bytes) (by simp)
      split_ifs at h with hoob hidx hc
      case neg =>
        cases h
        refine ⟨_, _, n, ?_, by simpa using hoob, by simpa using hidx, rfl⟩
        have hclose := (spans_cons (s := []) (k := .squareClose) (by simp)).mpr ⟨not_not.mp hc, spans_nil.mpr rfl⟩
        have hnum := (spans_cons (k := .number n) (by simp)).mpr ⟨hn, hbytes.trans hclose⟩
        exact (spans_cons (by simp)).mpr ⟨not_not.mp ho, hneg.trans hnum⟩
      all_goals cases h

theorem parseIndex_of_spans {bytes : Bool} (h : Spans (indexSymbols neg bytes n) toks rest)
    (hn : numberOob n = false) (hi : indexOob size neg (indexOf size bytes n) = false) :
    parseIndex size toks = (.ok (signed neg (indexOf size bytes n)), rest) := by
  rw [indexSymbols, spans_cons (by simp), spans_append] at h
  obtain ⟨ho, mid₁, hneg, h⟩ := h
  rw [spans_cons (by simp), spans_append] at h
  obtain ⟨hnum, mid₂, hbytes, h⟩ := h
  rw [spans_cons (by simp), spans_nil] at h
  obtain ⟨hc, rfl⟩ := h
  have hneg := optional_of_spans (by simp) hneg (by simp [hnum])
  have hbytes := optional_of_spans (by simp) hbytes (by simp [hc])
  simp only [parseIndex, ho, hneg, hnum, hn, hbytes, hi, hc]
  rfl

theorem isVar_of_parseVar (h : parseVar toks = (.ok v, rest)) : ∃ s, IsVar s v ∧ Spans s toks rest := by
  have single {k : Kind} (hk : (peek toks).kind = k) (hne : k ≠ .eof) : Spans [k] toks toks.tail :=
    (spans_cons hne).mpr ⟨hk, spans_nil.mpr rfl⟩
  rw [parseVar] at h
  split at h
  case h_1 hk => cases h; exact ⟨_, .true, single hk (by simp)⟩
  case h_2 hk => cases h; exact ⟨_, .false, single hk (by simp)⟩
  case h_3 f hk =>
    have hsize := (dataSize_le f).2
    split at h
    case isFalse hf => cases h; exact ⟨_, .field (by simpa using hf), single hk (by simp)⟩
    case isTrue hf =>
      cases hi : parseIndex (dataSize f) toks.tail
      case mk r toks' =>
        rw [hi] at h
        cases r <;> cases h
        case ok i =>
          obtain ⟨neg, bytes, n, hs, hn, hidx, rfl⟩ := parseIndex_ok hi
          refine ⟨_, .data neg bytes hf (numberOob_eq_false.mp hn)
            ((indexOob_eq_false (by omega)).mp hidx), ?_⟩
          exact (spans_cons (by simp)).mpr ⟨hk, hs⟩
  case h_4 => cases h

theorem parseVar_of_spans (hv : IsVar s v) (h : Spans s toks rest) : parseVar toks = (.ok v, rest) := by
  cases hv
  case true => 
    rw [spans_cons (by simp), spans_nil] at h
    simp only [parseVar, h.1, h.2]
  case false => 
    rw [spans_cons (by simp), spans_nil] at h
    simp only [parseVar, h.1, h.2]
  case field f hf =>
    rw [spans_cons (by simp), spans_nil] at h
    simp only [parseVar, h.1, h.2, hf, Bool.false_eq_true, if_false]
  case data f n neg bytes hf hn hi =>
    have hsize := (dataSize_le f).2
    rw [spans_cons (by simp)] at h
    have hidx := parseIndex_of_spans h.2 (numberOob_eq_false.mpr hn)
      ((indexOob_eq_false (by omega)).mpr hi)
    simp only [parseVar, h.1, hf, if_true, hidx]
    rfl

theorem parseNots_ok {b b' : Bool} (h : parseNots b toks = (b', rest)) :
    ∃ k, Spans (List.replicate k .not) toks rest ∧ b' = (b ^^ decide (k % 2 = 1)) := by
  induction toks generalizing b
  case nil => cases h; exact ⟨0, spans_nil.mpr rfl, by simp⟩
  case cons tok toks ih =>
    rw [parseNots] at h
    split at h
    case isFalse => cases h; exact ⟨0, spans_nil.mpr rfl, by simp⟩
    case isTrue hk =>
      obtain ⟨k, hs, rfl⟩ := ih h
      refine ⟨k + 1, (spans_cons (by simp)).mpr ⟨hk, hs⟩, ?_⟩
      rcases Nat.mod_two_eq_zero_or_one k with hk | hk <;> cases b <;> simp [Nat.add_mod, hk]

theorem parseNots_of_spans {b : Bool} {k : Nat} (h : Spans (List.replicate k .not) toks rest)
    (hr : (peek rest).kind ≠ .not) : parseNots b toks = (b ^^ decide (k % 2 = 1), rest) := by
  induction k generalizing b toks
  case zero =>
    rw [List.replicate_zero, spans_nil] at h
    subst h
    cases toks
    case nil => simp [parseNots]
    case cons =>
      rw [peek_cons] at hr
      rw [parseNots, if_neg hr]
      simp
  case succ k ih =>
    rw [List.replicate_succ, spans_cons (by simp)] at h
    cases toks
    case nil => cases h.1
    case cons tok toks =>
      rw [peek_cons, List.tail_cons] at h
      rw [parseNots, if_pos h.1, ih h.2]
      rcases Nat.mod_two_eq_zero_or_one k with hk | hk <;> cases b <;> simp [Nat.add_mod, hk]

-- No variable starts with a symbol that the parser looks for before it.
theorem IsVar.start (hv : IsVar s v) (h : Spans s toks rest) :
    (peek toks).kind ≠ .not ∧ (peek toks).kind ≠ .roundOpen := by
  cases hv <;> rw [spans_cons (by simp)] at h <;> simp [h.1]

theorem start_of_nots {k : Nat} (h : Spans (List.replicate k .not) toks rest)
    (hr : (peek rest).kind ≠ .roundOpen) : (peek toks).kind ≠ .roundOpen := by
  cases k
  case zero => rwa [spans_nil.mp h]
  case succ =>
    rw [List.replicate_succ, spans_cons (by simp)] at h
    simp [h.1]

theorem IsTest.start (ht : IsTest s t) (h : Spans s toks rest) : (peek toks).kind ≠ .roundOpen := by
  cases ht
  case bare k hv =>
    obtain ⟨mid, hk, hs⟩ := spans_append.mp h
    exact start_of_nots hk (hv.start hs).2
  case compare k neg hv ho =>
    obtain ⟨mid, hk, h⟩ := spans_append.mp h
    obtain ⟨mid', hs, -⟩ := spans_append.mp h
    exact start_of_nots hk (hv.start hs).2

theorem isTest_of_parseTest (h : parseTest toks = (.ok e, rest)) :
    ∃ s t, e = .test t ∧ IsTest s t ∧ Spans s toks rest := by
  simp only [parseTest] at h
  obtain ⟨k, hnots, hk⟩ := parseNots_ok (show parseNots false toks = (_, _) from rfl)
  rw [Bool.false_xor] at hk
  split at h
  case h_1 => cases h
  case h_2 v toks' hv =>
    obtain ⟨s, hs, hspan⟩ := isVar_of_parseVar hv
    split at h
    case h_1 =>
      cases h
      refine ⟨_, _, ?_, .bare k hs, hnots.trans hspan⟩
      simp [hk]
    case h_2 t ht =>
      have hneg := spans_optional toks'.tail (k := .minus) (by simp)
      split at h
      case h_2 => cases h
      case h_1 n hn =>
        cases h
        have hne : (peek toks').kind ≠ .eof := by intro he; rw [he] at ht; cases ht
        have hnum := (spans_cons (s := []) (by simp)).mpr ⟨hn, spans_nil.mpr rfl⟩
        have hop := (spans_cons hne).mpr ⟨rfl, hneg.trans hnum⟩
        refine ⟨_, _, ?_, .compare k _ hs ht, hnots.trans (hspan.trans hop)⟩
        simp [hk]

theorem parseTest_of_spans (ht : IsTest s t) (h : Spans s toks rest)
    (hr : (peek rest).kind.test = none) : parseTest toks = (.ok (.test t), rest) := by
  cases ht
  case bare s v k hv =>
    obtain ⟨mid, hnots, hvar⟩ := spans_append.mp h
    simp only [parseTest, parseNots_of_spans hnots (hv.start hvar).1, parseVar_of_spans hv hvar, hr]
    simp
  case compare s v op t n k neg hv ho =>
    obtain ⟨mid, hnots, h⟩ := spans_append.mp h
    obtain ⟨mid', hvar, h⟩ := spans_append.mp h
    rw [spans_cons (by rintro rfl; cases ho), spans_append] at h
    obtain ⟨hop, mid'', hneg, h⟩ := h
    rw [spans_cons (by simp), spans_nil] at h
    obtain ⟨hn, rfl⟩ := h
    have hneg := optional_of_spans (by simp) hneg (by simp [hn])
    simp only [parseTest, parseNots_of_spans hnots (hv.start hvar).1, parseVar_of_spans hv hvar, hop, ho,
      hneg, hn]
    simp

end Tests

section Filters

variable {s : List Kind} {toks rest : List Token} {e e' : Expr} {n fuel fuel' : Nat}
  {andArg orArg : List Token → Parsed Expr}

def NoOp (toks : List Token) : Prop :=
  (peek toks).kind ≠ .and ∧ (peek toks).kind ≠ .or

-- The expression ends where neither a comparison nor an operator follows.
structure Stops (toks : List Token) : Prop where
  test : (peek toks).kind.test = none
  noOp : NoOp toks

theorem stops_of_eq {k : Kind} (hk : (peek toks).kind = k) (ht : k.test = none) (ha : k ≠ .and)
    (ho : k ≠ .or) : Stops toks where
  test := hk ▸ ht
  noOp := ⟨hk ▸ ha, hk ▸ ho⟩

theorem parseOps_of_noOp (h : NoOp toks) : parseOps andArg orArg fuel e toks = (.ok e, toks) := by
  cases fuel
  case zero => rfl
  case succ fuel =>
    rw [parseOps]
    split
    case h_1 hk => exact absurd hk h.1
    case h_2 hk => exact absurd hk h.2
    case h_3 => rfl

theorem parseOps_and {b : Expr} (hk : (peek toks).kind = .and) (hb : andArg toks.tail = (.ok b, rest)) :
    parseOps andArg orArg (fuel + 1) e toks = parseOps andArg orArg fuel (.and e b) rest := by
  simp only [parseOps, hk, hb]

theorem parseOps_or {b : Expr} (hk : (peek toks).kind = .or) (hb : orArg toks.tail = (.ok b, rest)) :
    parseOps andArg orArg (fuel + 1) e toks = parseOps andArg orArg fuel (.or e b) rest := by
  simp only [parseOps, hk, hb]

-- What is parsed in each category, with the budget that it takes. A conjunction is followed by the
-- operators that are left.
def Parses : Category → List Kind → Expr → Prop
  | .arg, s, e => ∀ toks rest n, Spans s toks rest → (peek rest).kind.test = none →
    nesting s + 1 ≤ n → parseAndOrArg n toks = (.ok e, rest)
  | .conjunction, s, e => ∀ toks rest n, Spans s toks rest → (peek rest).kind.test = none →
    nesting s + 1 ≤ n → ∃ fuel, rest.length ≤ fuel ∧ parseFilter (n + 1) true toks =
      parseOps (parseAndOrArg n) (parseFilter n true) fuel e rest
  | .filter, s, e => ∀ toks rest n, Spans s toks rest → Stops rest → nesting s + 2 ≤ n →
    parseFilter n true toks = (.ok e, rest)

@[simp]
theorem nesting_append {s s' : List Kind} : nesting (s ++ s') = nesting s + nesting s' := by
  simp only [nesting, List.count_append]
  omega

theorem nesting_cons {k : Kind} (ho : k ≠ .roundOpen) (hr : k ≠ .or) : nesting (k :: s) = nesting s := by
  simp [nesting, ho, hr]

theorem nesting_open : nesting (.roundOpen :: s) = nesting s + 3 := by
  simp [nesting]
  omega

theorem nesting_or : nesting (.or :: s) = nesting s + 1 := by
  simp [nesting]
  omega

theorem Parses.outer (h : Parses .filter s e) (hs : Spans s toks rest) (hr : Stops rest)
    (hn : nesting s + 3 ≤ n) : parseFilter n false toks = (.ok e, rest) := by
  obtain ⟨n, rfl⟩ : ∃ m, n = m + 1 := ⟨n - 1, by omega⟩
  have := h toks rest n hs hr (by omega)
  simp only [parseFilter, this, Bool.false_eq_true, if_false, parseOps_of_noOp hr.noOp]

theorem parses_test {t : TestExpr} (h : IsTest s t) : Parses .arg s (.test t) := by
  intro toks rest n hs hr hn
  obtain ⟨n, rfl⟩ : ∃ m, n = m + 1 := ⟨n - 1, by omega⟩
  rw [parseAndOrArg]
  split
  case h_1 hk => exact absurd hk (h.start hs)
  case h_2 => exact parseTest_of_spans h hs hr

theorem parses_paren (h : Parses .filter s e) : Parses .arg (.roundOpen :: (s ++ [.roundClose])) e := by
  intro toks rest n hs hr hn
  rw [nesting_open, nesting_append] at hn
  obtain ⟨n, rfl⟩ : ∃ m, n = m + 1 := ⟨n - 1, by omega⟩
  rw [spans_cons (by simp), spans_append] at hs
  obtain ⟨ho, mid, hs, hc⟩ := hs
  rw [spans_cons (by simp), spans_nil] at hc
  have := h.outer (n := n) hs (stops_of_eq hc.1 rfl (by simp) (by simp)) (by omega)
  simp only [parseAndOrArg, ho, this, hc.1, hc.2]

theorem parses_question {s₁ s₂ s₃ : List Kind} {c th el : Expr} (hc : Parses .filter s₁ c)
    (ht : Parses .filter s₂ th) (he : Parses .filter s₃ el) :
    Parses .arg (.roundOpen :: (s₁ ++ .question :: (s₂ ++ .colon :: (s₃ ++ [.roundClose]))))
      (.question c th el) := by
  intro toks rest n hs hr hn
  simp only [nesting_open, nesting_append, nesting_cons (k := .question), nesting_cons (k := .colon), ne_eq,
    reduceCtorEq, not_false_eq_true] at hn
  obtain ⟨n, rfl⟩ : ∃ m, n = m + 1 := ⟨n - 1, by omega⟩
  rw [spans_cons (by simp), spans_append] at hs
  obtain ⟨ho, mid₁, h₁, hs⟩ := hs
  rw [spans_cons (by simp), spans_append] at hs
  obtain ⟨hq, mid₂, h₂, hs⟩ := hs
  rw [spans_cons (by simp), spans_append] at hs
  obtain ⟨hcol, mid₃, h₃, hs⟩ := hs
  rw [spans_cons (by simp), spans_nil] at hs
  have h₁ := hc.outer (n := n) h₁ (stops_of_eq hq rfl (by simp) (by simp)) (by omega)
  have h₂ := ht.outer (n := n) h₂ (stops_of_eq hcol rfl (by simp) (by simp)) (by omega)
  have h₃ := he.outer (n := n) h₃ (stops_of_eq hs.1 rfl (by simp) (by simp)) (by omega)
  simp only [parseAndOrArg, parseBranches, ho, h₁, hq, h₂, hcol, h₃, hs.1, hs.2]
  rfl

theorem parses_single (h : Parses .arg s e) : Parses .conjunction s e := by
  intro toks rest n hs hr hn
  refine ⟨rest.length, Nat.le_refl _, ?_⟩
  simp only [parseFilter, h toks rest n hs hr hn, if_true]

theorem parses_and {s₁ s₂ : List Kind} {a b : Expr} (ha : Parses .conjunction s₁ a)
    (hb : Parses .arg s₂ b) : Parses .conjunction (s₁ ++ .and :: s₂) (.and a b) := by
  intro toks rest n hs hr hn
  rw [nesting_append, nesting_cons (by simp) (by simp)] at hn
  rw [spans_append] at hs
  obtain ⟨mid, h₁, h₂⟩ := hs
  have hlen := h₂.length_le
  rw [spans_cons (by simp)] at h₂
  obtain ⟨fuel, hf, ha⟩ := ha toks mid n h₁ (by simp [h₂.1, Kind.test]) (by omega)
  rw [List.length_cons] at hlen
  obtain ⟨fuel, rfl⟩ : ∃ k, fuel = k + 1 := ⟨fuel - 1, by omega⟩
  refine ⟨fuel, by omega, ?_⟩
  rw [ha, parseOps_and h₂.1 (hb mid.tail rest n h₂.2 hr (by omega))]

theorem parses_conjunction (h : Parses .conjunction s e) : Parses .filter s e := by
  intro toks rest n hs hr hn
  obtain ⟨n, rfl⟩ : ∃ m, n = m + 1 := ⟨n - 1, by omega⟩
  obtain ⟨fuel, -, h⟩ := h toks rest n hs hr.test (by omega)
  rw [h, parseOps_of_noOp hr.noOp]

theorem parses_or {s₁ s₂ : List Kind} {a b : Expr} (ha : Parses .conjunction s₁ a)
    (hb : Parses .filter s₂ b) : Parses .filter (s₁ ++ .or :: s₂) (.or a b) := by
  intro toks rest n hs hr hn
  rw [nesting_append, nesting_or] at hn
  obtain ⟨n, rfl⟩ : ∃ m, n = m + 1 := ⟨n - 1, by omega⟩
  rw [spans_append] at hs
  obtain ⟨mid, h₁, h₂⟩ := hs
  have hlen := h₂.length_le
  rw [spans_cons (by simp)] at h₂
  obtain ⟨fuel, hf, ha⟩ := ha toks mid n h₁ (by simp [h₂.1, Kind.test]) (by omega)
  rw [List.length_cons] at hlen
  obtain ⟨fuel, rfl⟩ : ∃ k, fuel = k + 1 := ⟨fuel - 1, by omega⟩
  rw [ha, parseOps_or h₂.1 (hb mid.tail rest n h₂.2 hr (by omega)), parseOps_of_noOp hr.noOp]

theorem parses_of_derives {c : Category} (h : Derives c s e) : Parses c s e := by
  induction h
  case test ht => exact parses_test ht
  case paren h => exact parses_paren h
  case question hc ht he => exact parses_question hc ht he
  case single h => exact parses_single h
  case and ha hb => exact parses_and ha hb
  case conjunction h => exact parses_conjunction h
  case or ha hb => exact parses_or ha hb

-- An argument that was read: what the parser of arguments returns belongs to the language.
def ReadsArg (p : List Token → Parsed Expr) : Prop :=
  ∀ {toks rest e}, p toks = (.ok e, rest) → e.Whole → ∃ s, Derives .arg s e ∧ Spans s toks rest

def ReadsFilter (p : List Token → Parsed Expr) : Prop :=
  ∀ {toks rest e}, p toks = (.ok e, rest) → e.Whole →
    ∃ s, Derives .filter s e ∧ Spans s toks rest ∧ NoOp rest

theorem whole_of_parseOps (h : parseOps andArg orArg fuel e toks = (.ok e', rest)) (hw : e'.Whole) :
    e.Whole := by
  induction fuel generalizing e toks
  case zero => cases h; exact hw
  case succ fuel ih =>
    rw [parseOps] at h
    split at h
    case h_3 => cases h; exact hw
    all_goals
      split at h
      case h_1 => cases h
      case h_2 => exact (ih h).1

theorem derives_of_noOp (hn : NoOp toks) (he : Derives .conjunction s e)
    (h : parseOps andArg orArg fuel e toks = (.ok e', rest)) :
    ∃ s', Derives .filter (s ++ s') e' ∧ Spans s' toks rest ∧ NoOp rest := by
  rw [parseOps_of_noOp hn] at h
  cases h
  exact ⟨[], by simpa using .conjunction he, spans_nil.mpr rfl, hn⟩

theorem derives_of_parseOps (ha : ReadsArg andArg) (ho : ReadsFilter orArg) (hl : toks.length ≤ fuel)
    (he : Derives .conjunction s e) (h : parseOps andArg orArg fuel e toks = (.ok e', rest))
    (hw : e'.Whole) : ∃ s', Derives .filter (s ++ s') e' ∧ Spans s' toks rest ∧ NoOp rest := by
  induction fuel generalizing e toks s
  case zero =>
    refine derives_of_noOp ?_ he h
    rw [List.length_eq_zero_iff.mp (Nat.le_zero.mp hl)]
    simp [NoOp, peek]
  case succ fuel ih =>
    by_cases hn : NoOp toks
    case pos => exact derives_of_noOp hn he h
    case neg =>
      rw [parseOps] at h
      split at h
      case h_3 hk₁ hk₂ => exact absurd ⟨hk₁, hk₂⟩ hn
      case h_1 hk =>
        split at h
        case h_1 => cases h
        case h_2 b toks' hb =>
          obtain ⟨s₂, hd, hs₂⟩ := ha hb (whole_of_parseOps h hw).2
          have hspan := (spans_cons (by simp)).mpr ⟨hk, hs₂⟩
          have hlen := hspan.length_le
          rw [List.length_cons] at hlen
          obtain ⟨s', hf, hs', hn⟩ := ih (by omega) (.and he hd) h
          exact ⟨.and :: s₂ ++ s', by simpa using hf, hspan.trans hs', hn⟩
      case h_2 hk =>
        split at h
        case h_1 => cases h
        case h_2 b toks' hb =>
          -- What follows the `or` takes all operators that are left.
          obtain ⟨s₂, hd, hs₂, hn⟩ := ho hb (whole_of_parseOps h hw).2
          rw [parseOps_of_noOp hn] at h
          cases h
          exact ⟨.or :: s₂, .or he hd, (spans_cons (by simp)).mpr ⟨hk, hs₂⟩, hn⟩

theorem derives_of_parseBranches {filter : List Token → Parsed Expr} {c : Expr} (hf : ReadsFilter filter)
    (h : parseBranches filter c toks = (.ok e, rest)) (hw : e.Whole) :
    ∃ s₂ s₃ th el, e = .question c th el ∧ Derives .filter s₂ th ∧ Derives .filter s₃ el ∧
      Spans (s₂ ++ .colon :: (s₃ ++ [.roundClose])) toks rest := by
  rw [parseBranches] at h
  split at h
  case h_1 => cases h
  case h_2 th toks₁ ht =>
    split at h
    case isTrue => cases h
    case isFalse hc =>
      split at h
      case h_1 => cases h
      case h_2 el toks₂ he =>
        split at h
        case isTrue => cases h
        case isFalse hr =>
          cases h
          obtain ⟨s₂, hd₂, hs₂, -⟩ := hf ht hw.2.1
          obtain ⟨s₃, hd₃, hs₃, -⟩ := hf he hw.2.2
          have hclose := (spans_cons (s := []) (by simp)).mpr ⟨not_not.mp hr, spans_nil.mpr rfl⟩
          have hcolon := (spans_cons (by simp)).mpr ⟨not_not.mp hc, hs₃.trans hclose⟩
          exact ⟨s₂, s₃, th, el, rfl, hd₂, hd₃, hs₂.trans hcolon⟩

theorem readsArg_succ (hf : ReadsFilter (parseFilter n false)) : ReadsArg (parseAndOrArg (n + 1)) := by
  intro toks rest e h hw
  rw [parseAndOrArg] at h
  split at h
  case h_2 =>
    obtain ⟨s, t, rfl, ht, hs⟩ := isTest_of_parseTest h
    exact ⟨s, .test ht, hs⟩
  case h_1 ho =>
    cases hp : parseFilter n false toks.tail
    case mk arg mid =>
      simp only [hp] at h
      split at h
      case h_1 hc =>
        cases h
        obtain ⟨s, hd, hs, -⟩ := hf hp hw
        have hclose := (spans_cons (s := []) (by simp)).mpr ⟨hc, spans_nil.mpr rfl⟩
        exact ⟨_, .paren hd, (spans_cons (by simp)).mpr ⟨ho, hs.trans hclose⟩⟩
      case h_2 hq =>
        obtain ⟨s₂, s₃, th, el, rfl, hd₂, hd₃, hs⟩ := derives_of_parseBranches hf h hw
        cases arg
        case error => exact absurd hw.1 id
        case ok c =>
          obtain ⟨s₁, hd₁, hs₁, -⟩ := hf hp hw.1
          have hquestion := (spans_cons (by simp)).mpr ⟨hq, hs⟩
          exact ⟨_, .question hd₁ hd₂ hd₃, (spans_cons (by simp)).mpr ⟨ho, hs₁.trans hquestion⟩⟩
      case h_3 => cases h

theorem readsFilter_true (ha : ReadsArg (parseAndOrArg n)) (ho : ReadsFilter (parseFilter n true)) :
    ReadsFilter (parseFilter (n + 1) true) := by
  intro toks rest e h hw
  simp only [parseFilter, if_true] at h
  split at h
  case h_1 => cases h
  case h_2 a mid hp =>
    obtain ⟨s, hd, hs⟩ := ha hp (whole_of_parseOps h hw)
    obtain ⟨s', hd', hs', hn⟩ := derives_of_parseOps ha ho (Nat.le_refl _) (.single hd) h hw
    exact ⟨s ++ s', hd', hs.trans hs', hn⟩

theorem readsFilter_false (ho : ReadsFilter (parseFilter n true)) :
    ReadsFilter (parseFilter (n + 1) false) := by
  intro toks rest e h hw
  simp only [parseFilter, Bool.false_eq_true, if_false] at h
  split at h
  case h_1 => cases h
  case h_2 a mid hp =>
    obtain ⟨s, hd, hs, hn⟩ := ho hp (whole_of_parseOps h hw)
    rw [parseOps_of_noOp hn] at h
    cases h
    exact ⟨s, hd, hs, hn⟩

-- Whatever the depth is, only filters of the language are read.
theorem reads (n : Nat) : ReadsArg (parseAndOrArg n) ∧ ReadsFilter (parseFilter n true) ∧
    ReadsFilter (parseFilter n false) := by
  induction n
  case zero =>
    refine ⟨?_, ?_, ?_⟩ <;> intro toks rest e h <;> cases h
  case succ n ih =>
    obtain ⟨ha, ht, hf⟩ := ih
    exact ⟨readsArg_succ hf, readsFilter_true ha ht, readsFilter_false ht⟩

theorem IsTest.kind_ne {t : TestExpr} (h : IsTest s t) : t.kind ≠ .other := by
  cases h
  case bare k hv => split <;> simp
  case compare op t n k neg hv ho => cases op <;> cases ho <;> split <;> simp [negate]

theorem Derives.whole {c : Category} (h : Derives c s e) : e.Whole := by
  induction h
  case test => trivial
  case paren h | single h | conjunction h => exact h
  case question hc ht he => exact ⟨hc, ht, he⟩
  case and ha hb | or ha hb => exact ⟨ha, hb⟩

end Filters

section Input

def Ended (toks : List Token) : Prop :=
  ∃ last, toks.getLast? = some last ∧ last.kind = .eof

-- The tokens that are left.
structure Reach (toks rest : List Token) : Prop where
  suffix : rest <:+ toks
  ended  : Ended rest

-- What a parser never does: it does not go on behind the last token, and its errors point to tokens
-- of the input.
structure Stays {α : Type} (toks : List Token) (r : Parsed α) : Prop where
  reach : Reach toks r.2
  error : ∀ {e}, r.1 = .error e → ∃ tok ∈ toks, tok.pos = e.pos

variable {α : Type} {toks mid rest : List Token} {r : Parsed α} {a : α} {k : Kind} {e : Expr} {n : Nat}
  {code : ErrorCode}

theorem Ended.peek_mem (h : Ended toks) : peek toks ∈ toks := by
  obtain ⟨last, h, -⟩ := h
  cases toks
  case nil  => cases h
  case cons => exact List.mem_cons_self

theorem Ended.refl (h : Ended toks) : Reach toks toks :=
  ⟨List.suffix_refl _, h⟩

theorem Reach.trans (h : Reach toks mid) (h' : Reach mid rest) : Reach toks rest :=
  ⟨h'.suffix.trans h.suffix, h'.ended⟩

theorem Ended.tail (h : Ended toks) (hk : (peek toks).kind ≠ .eof) : Reach toks toks.tail := by
  obtain ⟨last, h, hl⟩ := h
  cases toks
  case nil => cases h
  case cons tok toks =>
    cases toks
    case nil => cases h; exact absurd hl hk
    case cons tok' toks => exact ⟨List.suffix_cons .., last, by rwa [List.getLast?_cons_cons] at h, hl⟩

theorem Ended.tail_of_eq (h : Ended toks) (hk : (peek toks).kind = k) (hne : k ≠ .eof) :
    Reach toks toks.tail :=
  h.tail (hk ▸ hne)

theorem Ended.optional (h : Ended toks) (hne : k ≠ .eof) : Reach toks (optional k toks).2 := by
  rw [Text.optional]
  split
  case isTrue hk => exact h.tail_of_eq hk hne
  case isFalse => exact h.refl

theorem Ended.error (h : Ended toks) : Stays (α := α) toks (.error ⟨code, (peek toks).pos⟩, toks) where
  reach := h.refl
  error he := by cases he; exact ⟨_, h.peek_mem, rfl⟩

theorem Ended.unexpected (h : Ended toks) : Stays (α := α) toks (unexpected toks) :=
  h.error

theorem Reach.ok (h : Reach toks rest) : Stays toks (.ok a, rest) where
  reach := h
  error he := by cases he

theorem Reach.stays (h : Reach toks mid) (h' : Stays mid r) : Stays toks r where
  reach := h.trans h'.reach
  error he := by
    obtain ⟨tok, ht, hp⟩ := h'.error he
    exact ⟨tok, h.suffix.subset ht, hp⟩

theorem Stays.of_error {β : Type} {err : Error} (h : Stays toks (α := α) (.error err, rest)) :
    Stays toks (α := β) (.error err, rest) where
  reach := h.reach
  error he := by cases he; exact h.error rfl

theorem stays_parseIndex {size : Nat} (h : Ended toks) : Stays toks (parseIndex size toks) := by
  simp only [parseIndex]
  split
  case isTrue => exact h.unexpected
  case isFalse ho =>
    have h₁ := h.tail_of_eq (not_not.mp ho) (by simp)
    have h₂ := h₁.trans (h₁.ended.optional (k := .minus) (by simp))
    split
    case h_2 => exact h₂.stays h₂.ended.unexpected
    case h_1 n hn =>
      have h₃ := h₂.trans (h₂.ended.tail_of_eq hn (by simp))
      have h₄ := h₃.trans (h₃.ended.optional (k := .bytes) (by simp))
      split
      case isTrue => exact h₂.stays h₂.ended.error
      case isFalse =>
        split
        case isTrue => exact h₄.stays h₄.ended.error
        case isFalse =>
          split
          case isTrue => exact h₄.stays h₄.ended.unexpected
          case isFalse hc => exact (h₄.trans (h₄.ended.tail_of_eq (not_not.mp hc) (by simp))).ok

theorem stays_parseVar (h : Ended toks) : Stays toks (parseVar toks) := by
  rw [parseVar]
  split
  case h_1 hk | h_2 hk => exact (h.tail_of_eq hk (by simp)).ok
  case h_3 f hk =>
    have ht := h.tail_of_eq hk (by simp)
    split
    case isTrue =>
      have hi : Stays toks (parseIndex (dataSize f) toks.tail) := ht.stays (stays_parseIndex ht.ended)
      cases hp : parseIndex (dataSize f) toks.tail
      case mk r rest =>
        rw [hp] at hi
        cases r
        case error => exact hi.of_error
        case ok    => exact hi.reach.ok
    case isFalse => exact ht.ok
  case h_4 => exact h.unexpected

theorem Ended.nots {b : Bool} (h : Ended toks) : Reach toks (parseNots b toks).2 := by
  induction toks generalizing b
  case nil => exact h.refl
  case cons tok toks ih =>
    rw [parseNots]
    split
    case isTrue hk =>
      have ht := h.tail_of_eq (k := .not) hk (by simp)
      exact ht.trans (ih ht.ended)
    case isFalse => exact h.refl

theorem stays_parseTest (h : Ended toks) : Stays toks (parseTest toks) := by
  have h₁ := h.nots (b := false)
  have hv := h₁.stays (stays_parseVar h₁.ended)
  simp only [parseTest]
  split
  case h_1 err rest he =>
    rw [he] at hv
    exact hv.of_error
  case h_2 v rest he =>
    rw [he] at hv
    have h₂ : Reach toks rest := hv.reach
    split
    case h_1 => exact h₂.ok
    case h_2 t ht =>
      have h₃ := h₂.trans (h₂.ended.tail fun hk => by rw [hk] at ht; cases ht)
      have h₄ := h₃.trans (h₃.ended.optional (k := .minus) (by simp))
      split
      case h_1 n hn => exact (h₄.trans (h₄.ended.tail_of_eq hn (by simp))).ok
      case h_2 => exact h₄.stays h₄.ended.unexpected

theorem stays_parseOps {andArg orArg : List Token → Parsed Expr} {fuel : Nat}
    (ha : ∀ {toks}, Ended toks → Stays toks (andArg toks))
    (ho : ∀ {toks}, Ended toks → Stays toks (orArg toks)) (h : Ended toks) :
    Stays toks (parseOps andArg orArg fuel e toks) := by
  induction fuel generalizing toks e
  case zero => exact h.refl.ok
  case succ fuel ih =>
    rw [parseOps]
    split
    case h_1 hk =>
      have ht := h.tail_of_eq hk (by simp)
      have hb := ht.stays (ha ht.ended)
      split
      case h_1 err rest he => rw [he] at hb; exact hb
      case h_2 b rest he => rw [he] at hb; exact hb.reach.stays (ih hb.reach.ended)
    case h_2 hk =>
      have ht := h.tail_of_eq hk (by simp)
      have hb := ht.stays (ho ht.ended)
      split
      case h_1 err rest he => rw [he] at hb; exact hb
      case h_2 b rest he => rw [he] at hb; exact hb.reach.stays (ih hb.reach.ended)
    case h_3 => exact h.refl.ok

theorem stays_parseBranches {filter : List Token → Parsed Expr}
    (hf : ∀ {toks}, Ended toks → Stays toks (filter toks)) (h : Ended toks) :
    Stays toks (parseBranches filter e toks) := by
  have ht := hf h
  rw [parseBranches]
  split
  case h_1 err rest he => rw [he] at ht; exact ht
  case h_2 th rest he =>
    rw [he] at ht
    have h₁ : Reach toks rest := ht.reach
    split
    case isTrue => exact h₁.stays h₁.ended.unexpected
    case isFalse hc =>
      have h₂ := h₁.trans (h₁.ended.tail_of_eq (not_not.mp hc) (by simp))
      have hl := h₂.stays (hf h₂.ended)
      split
      case h_1 err rest he => rw [he] at hl; exact hl
      case h_2 el rest he =>
        rw [he] at hl
        have h₃ : Reach toks rest := hl.reach
        split
        case isTrue => exact h₃.stays h₃.ended.unexpected
        case isFalse hr => exact (h₃.trans (h₃.ended.tail_of_eq (not_not.mp hr) (by simp))).ok

theorem stays (n : Nat) : (∀ {toks}, Ended toks → Stays toks (parseAndOrArg n toks)) ∧
    ∀ {and toks}, Ended toks → Stays toks (parseFilter n and toks) := by
  induction n
  case zero => exact ⟨fun h => h.error, fun h => h.error⟩
  case succ n ih =>
    obtain ⟨ha, hf⟩ := ih
    constructor
    case left =>
      intro toks h
      rw [parseAndOrArg]
      split
      case h_2 => exact stays_parseTest h
      case h_1 ho =>
        have ht := h.tail_of_eq ho (by simp)
        have hp : Stays toks (parseFilter n false toks.tail) := ht.stays (hf ht.ended)
        simp only
        split
        case h_1 hc =>
          exact ⟨hp.reach.trans (hp.reach.ended.tail_of_eq hc (by simp)), hp.error⟩
        case h_2 hq =>
          have h₂ := hp.reach.trans (hp.reach.ended.tail_of_eq hq (by simp))
          exact h₂.stays (stays_parseBranches hf h₂.ended)
        case h_3 => exact hp.reach.stays hp.reach.ended.unexpected
    case right =>
      intro and toks h
      have hp : Stays toks (if and then parseAndOrArg n toks else parseFilter n true toks) := by
        cases and
        case true  => exact ha h
        case false => exact hf h
      rw [parseFilter]
      split
      case h_1 err rest he => rw [he] at hp; exact hp
      case h_2 e rest he =>
        rw [he] at hp
        exact hp.reach.stays (stays_parseOps ha hf hp.reach.ended)

end Input

section Whole

variable {pre : List Token} {last : Token} {e e' : Expr} {s : List Kind} {c : Category}

theorem noEof_of_isVar {v : Var} (h : IsVar s v) : .eof ∉ s := by
  cases h <;> simp [optionally]

theorem noEof_of_isTest {t : TestExpr} (h : IsTest s t) : .eof ∉ s := by
  cases h
  case bare hv => simp [noEof_of_isVar hv]
  case compare op _ n _ neg hv ho =>
    have hop : op ≠ .eof := by rintro rfl; cases ho
    cases neg <;> simp [noEof_of_isVar hv, optionally, hop.symm]

theorem Derives.noEof (h : Derives c s e) : .eof ∉ s := by
  induction h
  case test ht => exact noEof_of_isTest ht
  case paren h => simpa using h
  case question hc ht he => simp [hc, ht, he]
  case single h | conjunction h => exact h
  case and ha hb | or ha hb => simp [ha, hb]

-- Both end at the first `eof`.
theorem eq_of_append_eq {pre' rest : List Token} (hp : ∀ tok ∈ pre, tok.kind ≠ .eof)
    (hp' : ∀ tok ∈ pre', tok.kind ≠ .eof) (hl : last.kind = .eof) (hr : (peek rest).kind = .eof)
    (h : pre ++ [last] = pre' ++ rest) : pre' = pre := by
  rcases List.eq_nil_or_concat rest with rfl | ⟨mid, tok, rfl⟩
  case inl =>
    rw [List.append_nil] at h
    exact absurd hl (hp' last (h ▸ by simp))
  case inr =>
    rw [List.concat_eq_append, ← List.append_assoc] at h
    have he := (List.append_inj' h rfl).1
    cases mid
    case nil => simpa using he.symm
    case cons tok' mid => exact absurd hr (hp tok' (he ▸ by simp))

theorem derives_of_parse (hp : ∀ tok ∈ pre, tok.kind ≠ .eof) (hl : last.kind = .eof)
    (h : parse (pre ++ [last]) = .ok e) (hw : e.Whole) : Derives .filter (pre.map Token.kind) e := by
  rw [parse] at h
  split at h
  case h_1 => cases h
  case h_2 e' rest hf =>
    split at h
    case isTrue => cases h
    case isFalse hk =>
      cases h
      obtain ⟨s, hd, ⟨pre', hpre, rfl⟩, -⟩ := (reads _).2.2 hf hw
      rw [eq_of_append_eq hp (fun tok ht he => hd.noEof (he ▸ List.mem_map_of_mem ht)) hl
        (not_not.mp hk) hpre] at hd
      exact hd

theorem parse_of_derives (hl : last.kind = .eof) (hn : nesting (pre.map Token.kind) + 3 ≤ maxDepth + 1)
    (h : Derives .filter (pre.map Token.kind) e) : parse (pre ++ [last]) = .ok e := by
  have hs : Spans (pre.map Token.kind) (pre ++ [last]) [last] := ⟨pre, rfl, rfl⟩
  have hstop : Stops [last] := stops_of_eq hl rfl (by simp) (by simp)
  have := (parses_of_derives h).outer hs hstop hn
  simp [parse, this, hl]

-- Exactly the filters of the language are accepted, as long as they do not go too deep. Other
-- results have a part that is missing.
theorem parse_eq_ok_iff (hp : ∀ tok ∈ pre, tok.kind ≠ .eof) (hl : last.kind = .eof)
    (hn : nesting (pre.map Token.kind) + 3 ≤ maxDepth + 1) :
    parse (pre ++ [last]) = .ok e ∧ e.Whole ↔ Derives .filter (pre.map Token.kind) e where
  mp h  := derives_of_parse hp hl h.1 h.2
  mpr h := ⟨parse_of_derives hl hn h, h.whole⟩

-- `(outbound ? tcp.DstPort == 443 : tcp.SrcPort == 443) and not loopback or udp`
def webTokens : List Token :=
  [⟨.roundOpen, some 0⟩, ⟨.field .outbound, some 1⟩, ⟨.question, some 10⟩,
   ⟨.field .tcpDstPort, some 12⟩, ⟨.eq, some 24⟩, ⟨.number (.ofNarrow 443), some 27⟩, ⟨.colon, some 31⟩,
   ⟨.field .tcpSrcPort, some 33⟩, ⟨.eq, some 45⟩, ⟨.number (.ofNarrow 443), some 48⟩,
   ⟨.roundClose, some 51⟩, ⟨.and, some 53⟩, ⟨.not, some 57⟩, ⟨.field .loopback, some 61⟩,
   ⟨.or, some 70⟩, ⟨.field .udp, some 73⟩]

def webExpr : Expr :=
  .or
    (.and
      (.question (.test ⟨.neq, makeVar .outbound, makeZero⟩)
        (.test ⟨.eq, makeVar .tcpDstPort, ⟨false, .ofNarrow 443⟩⟩)
        (.test ⟨.eq, makeVar .tcpSrcPort, ⟨false, .ofNarrow 443⟩⟩))
      (.test ⟨.eq, makeVar .loopback, makeZero⟩))
    (.test ⟨.neq, makeVar .udp, makeZero⟩)

theorem parse_webTokens : parse (webTokens ++ [⟨.eof, some 76⟩]) = .ok webExpr ∧ webExpr.Whole :=
  ⟨by decide +kernel, ⟨⟨trivial, trivial, trivial⟩, trivial⟩, trivial⟩

theorem parse_eq_ok_iff_web : Derives .filter (webTokens.map Token.kind) webExpr :=
  (parse_eq_ok_iff (by decide) rfl (by decide)).mp parse_webTokens

-- No sequence of symbols stands for two filters.
theorem derives_unique (h : Derives .filter s e) (h' : Derives .filter s e') : e = e' := by
  have hs : Spans s (s.map (Token.mk · none)) [] :=
    ⟨_, (List.append_nil _).symm, by rw [List.map_map]; exact List.map_id s⟩
  have hstop : Stops [] := stops_of_eq (k := .eof) rfl rfl (by simp) (by simp)
  have h := (parses_of_derives h).outer hs hstop (Nat.le_refl _)
  rw [(parses_of_derives h').outer hs hstop (Nat.le_refl _)] at h
  cases h
  rfl

end Whole

end Wd.Text
