import EbpfDivert.Wd.Text.Tokens
import Mathlib.Data.List.Chain

namespace Wd.Text

section Lookup

variable {s t u name : CString} {k : Kind}

theorem strCmp_eq_compare (s t : CString) : strCmp s t = compare (s.map Char.toNat) (t.map Char.toNat) := by
  fun_induction strCmp s t
  case case4 c s t ih =>
    rw [ih, List.map_cons, List.map_cons, List.compare_cons_cons]
    simp
  case case5 c s d t hne =>
    have hne : c.toNat ≠ d.toNat := fun h => hne (Char.toNat_inj.mp h)
    rw [List.map_cons, List.map_cons, List.compare_cons_cons]
    rcases Nat.lt_or_gt_of_ne hne with h | h
    · rw [Nat.compare_eq_lt.mpr h]; rfl
    · rw [Nat.compare_eq_gt.mpr h]; rfl
  all_goals rfl

theorem strCmp_eq_eq : strCmp s t = .eq ↔ s = t := by
  rw [strCmp_eq_compare, Std.LawfulEqCmp.compare_eq_iff_eq]
  exact List.map_inj_right fun _ _ => Char.toNat_inj.mp

theorem strCmp_trans (h : strCmp s t = .lt) (h' : strCmp t u = .lt) : strCmp s u = .lt := by
  rw [strCmp_eq_compare] at h h' ⊢
  exact Std.TransCmp.lt_trans h h'

theorem strCmp_gt_of_lt (h : strCmp s t = .lt) : strCmp t s = .gt := by
  rw [strCmp_eq_compare] at h ⊢
  exact Std.OrientedCmp.gt_of_lt h

-- What does not come before `u` does not have a successor that does.
theorem strCmp_gt_of_not_lt (h : strCmp s t = .lt) (hs : strCmp s u ≠ .lt) : strCmp t u = .gt := by
  cases hc : strCmp s u
  case lt => exact absurd hc hs
  case eq =>
    rw [strCmp_eq_eq] at hc
    exact hc ▸ strCmp_gt_of_lt h
  case gt =>
    rw [strCmp_eq_compare] at hc h ⊢
    exact Std.TransCmp.gt_trans (Std.OrientedCmp.gt_of_lt h) hc

-- The order of the table.
def Before (a b : CString × Kind) : Prop :=
  strCmp a.1 b.1 = .lt

instance {a b : CString × Kind} : Decidable (Before a b) :=
  inferInstanceAs (Decidable (_ = _))

instance : Trans Before Before Before where
  trans := strCmp_trans

theorem tokenInfo_sorted : tokenInfo.Pairwise Before := by
  rw [← List.isChain_iff_pairwise]
  decide +kernel

-- The binary search finds every name of the table, and nothing else.
theorem tokenLookup_eq_some_iff : tokenLookup name = some k ↔ (name, k) ∈ tokenInfo := by
  have ho : BinarySearch.Ordered (strCmp ·.1 name) tokenInfo :=
    tokenInfo_sorted.imp fun h hs => strCmp_gt_of_not_lt h hs
  rw [tokenLookup, Option.map_eq_some_iff]
  constructor
  case mp =>
    rintro ⟨⟨name', k⟩, h, rfl⟩
    obtain ⟨hm, he⟩ := (BinarySearch.find_eq_some_iff ho).mp h
    rwa [← strCmp_eq_eq.mp he]
  case mpr =>
    intro hm
    exact ⟨_, (BinarySearch.find_eq_some_iff ho).mpr ⟨hm, strCmp_eq_eq.mpr rfl⟩, rfl⟩

end Lookup

section Lex

variable {layer : Layer} {str rest token : CString} {kinds : List Kind} {k : Kind} {f : Field} {i j : Nat}
  {toks : List Token}

-- The symbols that the tokenizer makes: the end of the filter is not one of them, and fields are
-- known on the layer.
structure Kind.Made (layer : Layer) (k : Kind) : Prop where
  ne_eof : k ≠ .eof
  valid  : ∀ {f}, k = .field f → validateField layer f

theorem tokenInfo_ne_eof (h : (token, k) ∈ tokenInfo) : k ≠ .eof := by
  have ha : ∀ e ∈ tokenInfo, e.2 ≠ .eof := by decide
  exact ha _ h

-- A word is one symbol, or a number with its unit, or nothing.
inductive Spelt (layer : Layer) : List Kind → Prop
  | nothing : Spelt layer []
  | one {k : Kind} : k.Made layer → Spelt layer [k]
  | unit (n : Words) : Spelt layer [.number n, .bytes]

theorem made_number (layer : Layer) (n : Words) : Kind.Made layer (.number n) :=
  ⟨by simp, by simp⟩

theorem Spelt.length_le (h : Spelt layer kinds) : kinds.length ≤ 2 := by
  cases h <;> simp

theorem spelt_of_literal (h : literal token = some (.ok kinds)) : Spelt layer kinds := by
  rw [literal] at h
  split_ifs at h
  case pos => cases h; exact .nothing
  case neg =>
    split at h
    case h_1 n _ => cases h; exact .one (made_number layer n)
    case h_2 n _ => cases h; exact .unit n
    case h_3 =>
      split at h
      case h_1 n _ => cases h; exact .one (made_number layer n)
      case h_2 =>
        split at h
        case h_1 addr _ => cases h; exact .one (made_number layer _)
        case h_2 =>
          obtain ⟨addr, -, h⟩ := Option.map_eq_some_iff.mp h
          cases addr <;> cases h
          exact .one (made_number layer _)

theorem spelt_of_word (h : word layer token = some (.ok kinds)) : Spelt layer kinds := by
  rw [word] at h
  split at h
  case h_1 => exact spelt_of_literal h
  case h_2 f _ =>
    split_ifs at h with hv
    case pos => cases h; exact .one ⟨by simp, by rintro f ⟨⟩; exact hv⟩
    case neg => cases h
  case h_3 m _ =>
    cases h
    refine .one ?_
    cases expandMacro m layer
    case none => exact ⟨by simp, by simp⟩
    case some v => exact made_number layer _
  case h_4 k hf hm hk =>
    cases h
    refine .one ⟨tokenInfo_ne_eof (tokenLookup_eq_some_iff.mp hk), ?_⟩
    rintro f rfl
    exact absurd rfl (hf f)

theorem symbol_some (h : symbol str = some (k, rest)) :
    k.Made layer ∧ ∃ pre, 0 < pre.length ∧ str = pre ++ rest := by
  rw [symbol.eq_def] at h
  split at h <;> cases h
  case h_1 | h_2 | h_3 | h_4 | h_5 | h_7 | h_9 | h_11 | h_13 | h_15 | h_16 =>
    exact ⟨⟨by simp, by simp⟩, [_], Nat.one_pos, rfl⟩
  all_goals exact ⟨⟨by simp, by simp⟩, [_, _], Nat.two_pos, rfl⟩

-- What a round takes from the string and writes into the array.
structure Lexes (layer : Layer) (i : Nat) (str : CString) (toks : List Token) (j : Nat) (rest : CString) :
    Prop where
  made    : ∀ tok ∈ toks, tok.kind.Made layer
  pos     : ∀ tok ∈ toks, tok.pos = some i ∨ (tok.kind = .bytes ∧ tok.pos = none)
  room    : toks.length ≤ 2
  advance : ∃ pre, 0 < pre.length ∧ str = pre ++ rest ∧ j = i + pre.length

theorem symbol_colon {s : CString} (h : symbol (':' :: s) = none) : ∃ t, s = ':' :: t := by
  rw [symbol.eq_def] at h
  split at h
  case h_14 he => cases he; exact ⟨_, rfl⟩
  case h_19 hn _ _ _ => exact absurd rfl (hn s)
  all_goals cases h

theorem wordName_isPrefix : wordName token <+: token := by
  rw [wordName]
  split
  case isTrue => exact List.dropLast_prefix token
  case isFalse => exact List.prefix_refl token

theorem length_wordName : token.length ≤ (wordName token).length + 1 := by
  rw [wordName]
  split
  case isTrue => rw [List.length_dropLast]; omega
  case isFalse => omega

-- A word is not empty, also without the colon at its end.
theorem length_wordName_pos {c : Char} {s : CString} (hc : isWordChar c) (hs : symbol (c :: s) = none) :
    0 < (wordName ((c :: s).takeWhile isWordChar)).length := by
  rw [List.takeWhile_cons, if_pos hc, wordName]
  split
  case isFalse => simp
  case isTrue hcolon =>
    rw [List.length_dropLast, List.length_cons, Nat.add_sub_cancel, List.length_pos_iff]
    intro hnil
    rw [hnil] at hcolon
    obtain rfl : c = ':' := by simpa using hcolon
    obtain ⟨t, rfl⟩ := symbol_colon hs
    simp [isWordChar] at hnil

theorem Spelt.place (h : Spelt layer kinds) {tok : Token} (ht : tok ∈ place i kinds) :
    tok.kind.Made layer ∧ (tok.pos = some i ∨ (tok.kind = .bytes ∧ tok.pos = none)) := by
  cases h
  case nothing => cases ht
  case one h =>
    obtain rfl := List.mem_singleton.mp ht
    exact ⟨h, .inl rfl⟩
  case unit n =>
    rcases List.mem_pair.mp ht with rfl | rfl
    · exact ⟨made_number layer n, .inl rfl⟩
    · exact ⟨⟨by simp, by simp⟩, .inr ⟨rfl, rfl⟩⟩

theorem length_place : (place i kinds).length = kinds.length := by
  cases kinds <;> simp [place]

theorem lexes_of_lexWord {c : Char} {s : CString} (hc : isWordChar c) (hs : symbol (c :: s) = none)
    (h : lexWord layer i (c :: s) = .next toks j rest) : Lexes layer i (c :: s) toks j rest := by
  have hpos := length_wordName_pos hc hs
  have hpre : wordName ((c :: s).takeWhile isWordChar) <+: c :: s :=
    wordName_isPrefix.trans (List.takeWhile_prefix _)
  simp only [lexWord] at h
  split_ifs at h
  split at h <;> cases h
  case h_3 kinds hk =>
    have hspelt := spelt_of_word hk
    exact {
      made    := fun tok ht => (hspelt.place ht).1
      pos     := fun tok ht => (hspelt.place ht).2
      room    := length_place ▸ hspelt.length_le
      advance := ⟨_, hpos, (List.prefix_iff_eq_append.mp hpre).symm, rfl⟩ }

theorem lex_next (h : lex layer i str = .next toks j rest) : Lexes layer i str toks j rest := by
  rw [lex.eq_def] at h
  split at h
  case h_1 => cases h
  case h_2 c s =>
    split at h
    case h_1 kind rest' hs =>
      cases h
      obtain ⟨hm, pre, hpos, hpre⟩ : kind.Made layer ∧ ∃ pre, 0 < pre.length ∧ c :: s = pre ++ rest :=
        symbol_some hs
      exact {
        made    := by simpa using hm
        pos     := by simp
        room    := by simp
        advance := ⟨pre, hpos, hpre, by rw [hpre, List.length_append, Nat.add_sub_cancel]⟩ }
    case h_2 hs =>
      split_ifs at h with hc
      exact lexes_of_lexWord hc hs h

-- The positions that an error may have: within the string, or one before its start.
def Points (len p : Nat) : Prop :=
  p ≤ len ∨ p = 2 ^ 32 - 1

theorem lex_error {e : Error} (hi : i < 2 ^ 32) (h : lex layer i str = .error e) :
    ∃ p, e.pos = some p ∧ Points (i + str.length) p := by
  rw [lex.eq_def] at h
  split at h
  case h_1 => cases h
  case h_2 c s =>
    have hone : i + 1 ≤ i + (c :: s).length := by simp
    split at h
    case h_1 => cases h
    case h_2 hs =>
      split_ifs at h with hc
      case neg => cases h; exact ⟨_, rfl, .inl hone⟩
      case pos =>
        simp only [lexWord] at h
        split_ifs at h
        case pos => cases h; exact ⟨_, rfl, .inl (by omega)⟩
        case neg =>
          split at h <;> cases h
          refine ⟨_, rfl, ?_⟩
          have hpre : wordName ((c :: s).takeWhile isWordChar) <+: (c :: s).takeWhile isWordChar := wordName_isPrefix
          have h₁ : ((c :: s).takeWhile isWordChar).length ≤ _ := length_wordName
          have h₂ := hpre.length_le
          rw [Points]
          omega

theorem lex_last {tok : Token} (h : lex layer i str = .last tok) : tok = ⟨.eof, some i⟩ := by
  rw [lex.eq_def] at h
  split at h
  case h_1 => cases h; rfl
  case h_2 =>
    split at h
    case h_1 => cases h
    case h_2 =>
      split_ifs at h
      simp only [lexWord] at h
      split_ifs at h
      split at h <;> cases h

end Lex

section Tokenize

variable {layer : Layer} {str filter : CString} {i tp fuel : Nat} {toks : List Token} {e : Error}

-- A token of the string from `i` to `stop`. The unit of a number has no position.
def Placed (i stop : Nat) (tok : Token) : Prop :=
  (tok.kind = .bytes ∧ tok.pos = none) ∨ ∃ p, tok.pos = some p ∧ i ≤ p ∧ p ≤ stop

theorem Placed.mono {j stop : Nat} {tok : Token} (h : Placed j stop tok) (hi : i ≤ j) : Placed i stop tok := by
  rcases h with h | ⟨p, hp, h₁, h₂⟩
  case inl => exact .inl h
  case inr => exact .inr ⟨p, hp, hi.trans h₁, h₂⟩

-- What a round leads to. The string that is left is shorter, and it ends where it ended.
structure Advances (layer : Layer) (i : Nat) (str : CString) (toks : List Token) (j : Nat) (rest : CString) :
    Prop where
  made   : ∀ tok ∈ toks, tok.kind.Made layer
  placed : ∀ tok ∈ toks, Placed i (i + str.length) tok
  room   : toks.length ≤ 2
  le     : i ≤ j
  stop   : j + rest.length = i + str.length
  lt     : rest.length < str.length

theorem length_skip (str : CString) : (str.length - (str.dropWhile CString.isSpace).length) +
    (str.dropWhile CString.isSpace).length = str.length :=
  Nat.sub_add_cancel (List.dropWhile_suffix _).length_le

theorem advances_of_next {j : Nat} {rest : CString} (h : nextToken layer i str = .next toks j rest) :
    Advances layer i str toks j rest := by
  have hskip := length_skip str
  have hl := lex_next h
  obtain ⟨pre, hpos, hpre, rfl⟩ := hl.advance
  have hlen := congrArg List.length hpre
  rw [List.length_append] at hlen
  refine ⟨hl.made, fun tok ht => ?_, hl.room, by omega, by omega, by omega⟩
  exact (hl.pos tok ht).symm.imp_right fun h => ⟨_, h, by omega, by omega⟩

theorem nextToken_error (hs : i + str.length < 2 ^ 32) (h : nextToken layer i str = .error e) :
    ∃ p, e.pos = some p ∧ Points (i + str.length) p := by
  have hskip := length_skip str
  have hp := lex_error (by omega) h
  rwa [Nat.add_assoc, hskip] at hp

-- The array after the tokenizer: one `eof` at its end, and room for all of it.
structure Tokenized (layer : Layer) (i stop tp : Nat) (toks : List Token) : Prop where
  shape  : ∃ pre p, toks = pre ++ [⟨.eof, some p⟩] ∧ ∀ tok ∈ pre, tok.kind.Made layer
  placed : ∀ tok ∈ toks, Placed i stop tok
  room   : tp + toks.length ≤ tokensMax - 1

theorem Tokenized.last (htp : tp < tokensMax - 1) :
    Tokenized layer i (i + str.length) tp
      [⟨.eof, some (i + (str.length - (str.dropWhile CString.isSpace).length))⟩] where
  shape  := ⟨[], _, rfl, by simp⟩
  placed tok ht := by
    rw [List.mem_singleton.mp ht]
    exact .inr ⟨_, rfl, by omega, by omega⟩
  room   := htp

theorem Tokenized.cons {j : Nat} {rest : CString} {toks' : List Token} (h : Advances layer i str toks j rest)
    (h' : Tokenized layer j (j + rest.length) (tp + toks.length) toks') :
    Tokenized layer i (i + str.length) tp (toks ++ toks') where
  shape := by
    obtain ⟨pre, p, rfl, hmade⟩ := h'.shape
    refine ⟨toks ++ pre, p, (List.append_assoc ..).symm, fun tok ht => ?_⟩
    exact (List.mem_append.mp ht).elim (h.made tok) (hmade tok)
  placed tok ht := by
    rcases List.mem_append.mp ht with ht | ht
    · exact h.placed tok ht
    · exact h.stop ▸ (h'.placed tok ht).mono h.le
  room := by
    have := h'.room
    rw [List.length_append]
    omega

theorem tokenized_of_ok (h : tokenizeFrom layer fuel i tp str = some (.ok toks)) :
    Tokenized layer i (i + str.length) tp toks := by
  induction fuel generalizing i tp str toks
  case zero => cases h
  case succ fuel ih =>
    rw [tokenizeFrom] at h
    split_ifs at h with htp
    case pos => cases h
    case neg =>
      split at h
      case h_1 | h_2 => cases h
      case h_3 tok hlex =>
        cases h
        rw [lex_last hlex]
        exact .last (Nat.lt_of_not_le htp)
      case h_4 toks₁ j rest hnext =>
        obtain ⟨r, hr, h⟩ := Option.map_eq_some_iff.mp h
        cases r <;> cases h
        exact .cons (advances_of_next hnext) (ih hr)

-- The tokenizer points into the string, or one position before it.
theorem points_of_error (hs : i + str.length < 2 ^ 32)
    (h : tokenizeFrom layer fuel i tp str = some (.error e)) :
    ∃ p, e.pos = some p ∧ Points (i + str.length) p := by
  induction fuel generalizing i tp str
  case zero => cases h
  case succ fuel ih =>
    rw [tokenizeFrom] at h
    split_ifs at h with htp
    case pos => cases h; exact ⟨_, rfl, .inl (Nat.le_add_right ..)⟩
    case neg =>
      split at h
      case h_1 | h_3 => cases h
      case h_2 hlex => cases h; exact nextToken_error hs hlex
      case h_4 toks₁ j rest hnext =>
        obtain ⟨r, hr, h⟩ := Option.map_eq_some_iff.mp h
        cases r <;> cases h
        have hstop := (advances_of_next hnext).stop
        exact hstop ▸ ih (hstop ▸ hs) hr

end Tokenize

end Wd.Text
