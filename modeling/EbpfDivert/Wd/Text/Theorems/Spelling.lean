import EbpfDivert.Wd.Text.Theorems.Addresses
import EbpfDivert.Wd.Text.Theorems.Tokens

-- How texts that are put together from words and symbols are read.
namespace Wd.Text

section Reads

-- The symbols that a text is made of.
inductive Reads (layer : Layer) : CString → List Kind → Prop
  | last {str} : (∀ i, ∃ tok, nextToken layer i str = .last tok) → Reads layer str []
  | next {str rest kinds ks} :
    (∀ i, ∃ toks j, nextToken layer i str = .next toks j rest ∧ toks.map Token.kind = kinds) →
    Reads layer rest ks → Reads layer str (kinds ++ ks)

variable {layer : Layer} {str rest w : CString} {kinds ks : List Kind} {k : Kind} {i tp fuel : Nat} {c : Char}

-- The tokenizer finds them, as long as there is room for them.
theorem tokenizeFrom_of_reads (h : Reads layer str ks) (hf : str.length < fuel)
    (ht : tp + ks.length < tokensMax - 1) : ∃ pre p,
      tokenizeFrom layer fuel i tp str = some (.ok (pre ++ [⟨.eof, some p⟩])) ∧ pre.map Token.kind = ks := by
  induction h generalizing fuel i tp
  case last str hl =>
    obtain ⟨fuel, rfl⟩ : ∃ n, fuel = n + 1 := ⟨fuel - 1, by omega⟩
    obtain ⟨tok, hl⟩ := hl i
    rw [tokenizeFrom, if_neg (by omega), hl]
    exact ⟨[], _, by rw [lex_last hl]; rfl, rfl⟩
  case next str rest kinds ks hn _ ih =>
    obtain ⟨fuel, rfl⟩ : ∃ n, fuel = n + 1 := ⟨fuel - 1, by omega⟩
    obtain ⟨toks, j, hnext, rfl⟩ := hn i
    rw [List.length_append, List.length_map] at ht
    have hlt := (advances_of_next hnext).lt
    have hroom : tp + toks.length + ks.length < tokensMax - 1 := by omega
    obtain ⟨pre, p, hr, hk⟩ := ih (i := j) (show rest.length < fuel by omega) hroom
    refine ⟨toks ++ pre, p, ?_, by rw [List.map_append, hk]⟩
    rw [tokenizeFrom, if_neg (by omega), hnext]
    simp only [hr, Option.map_some, Except.map, List.append_assoc]

theorem tokenizeFilter_of_reads (h : Reads layer str ks) (ht : ks.length < tokensMax - 1) : ∃ pre p,
    tokenizeFilter layer str = some (.ok (pre ++ [⟨.eof, some p⟩])) ∧ pre.map Token.kind = ks :=
  tokenizeFrom_of_reads h (Nat.lt_succ_self _) (by omega)

theorem reads_nil : Reads layer [] [] :=
  .last fun _ => ⟨_, rfl⟩

theorem nextToken_space : nextToken layer i (' ' :: str) = nextToken layer (i + 1) str := by
  have hl := (List.dropWhile_suffix (l := str) CString.isSpace).length_le
  have hd : (' ' :: str).dropWhile CString.isSpace = str.dropWhile CString.isSpace := rfl
  simp only [nextToken, hd, List.length_cons]
  congr 1
  omega

theorem Reads.space (h : Reads layer str ks) : Reads layer (' ' :: str) ks := by
  cases h
  case last h => exact .last fun i => nextToken_space ▸ h (i + 1)
  case next hr h => exact .next (fun i => nextToken_space ▸ h (i + 1)) hr

theorem nextToken_of_head (hc : CString.isSpace c = false) :
    nextToken layer i (c :: str) = lex layer i (c :: str) := by
  simp [nextToken, hc]

theorem Reads.symbol (h : Reads layer rest ks) (hc : CString.isSpace c = false)
    (hs : symbol (c :: str) = some (k, rest)) : Reads layer (c :: str) (k :: ks) := by
  change Reads layer (c :: str) ([k] ++ ks)
  refine .next (fun i => ?_) h
  rw [nextToken_of_head hc, lex, hs]
  exact ⟨_, _, rfl, rfl⟩

-- What may follow a word: something that cannot belong to it, or a colon with a blank behind it if
-- the word is `tight`.
def Follows (tight : Prop) (rest : CString) : Prop :=
  (∀ c ∈ rest.head?, isWordChar c = false) ∨ (tight ∧ ∃ r, rest = ':' :: ' ' :: r)

theorem Follows.mono {p q : Prop} (h : Follows p rest) (hpq : p → q) : Follows q rest :=
  h.imp_right fun h => ⟨hpq h.1, h.2⟩

-- A colon behind the word is not taken for a part of it.
def Tight (w : CString) : Prop :=
  w.length ≤ 38 ∧ w.getLast? ≠ some ':'

instance : Decidable (Tight w) :=
  inferInstanceAs (Decidable (_ ∧ _))

-- A word with its symbols.
structure Spells (layer : Layer) (w : CString) (kinds : List Kind) : Prop where
  nonempty : w ≠ []
  chars    : ∀ c ∈ w, isWordChar c
  start    : ∀ rest, Text.symbol (w ++ rest) = none
  length   : w.length ≤ 39
  name     : wordName w = w
  word     : word layer w = some (.ok kinds)

theorem isSpace_of_wordChar (hc : isWordChar c) : CString.isSpace c = false := by
  have hsmall : ∀ n < 33, isWordChar (Char.ofNat n) = false := by decide
  by_contra hs
  have hs : c = ' ' ∨ '\t' ≤ c ∧ c ≤ '\r' := by
    simpa [CString.isSpace, or_iff_not_imp_left] using hs
  have hlt : c.toNat < 33 := by
    rcases hs with rfl | ⟨-, hs⟩
    case inl => decide
    case inr => exact Nat.lt_of_le_of_lt (UInt32.le_iff_toNat_le.mp hs) (by decide)
  have hn := hsmall c.toNat hlt
  rw [Char.ofNat_toNat, hc] at hn
  cases hn

theorem wordName_taken (h : Spells layer w kinds) (hf : Follows (Tight w) rest) :
    ((w ++ rest).takeWhile isWordChar).length < tokenMaxlen ∧
      wordName ((w ++ rest).takeWhile isWordChar) = w := by
  rw [List.takeWhile_append_of_pos h.chars]
  rcases hf with hf | ⟨ht, r, rfl⟩
  case inl =>
    have hn : rest.takeWhile isWordChar = [] := by
      cases rest
      case nil => rfl
      case cons c rest => rw [List.takeWhile_cons, hf c rfl]; rfl
    rw [hn, List.append_nil]
    exact ⟨Nat.lt_of_le_of_lt h.length (by decide), h.name⟩
  case inr =>
    have hn : (':' :: ' ' :: r).takeWhile isWordChar = [':'] := rfl
    rw [hn, wordName, if_pos (by simpa using ht.2), List.dropLast_concat]
    exact ⟨by rw [List.length_append]; exact Nat.lt_of_le_of_lt (Nat.add_le_add_right ht.1 1) (by decide), rfl⟩

theorem Reads.word (h : Reads layer rest ks) (hw : Spells layer w kinds) (hf : Follows (Tight w) rest) :
    Reads layer (w ++ rest) (kinds ++ ks) := by
  obtain ⟨c, s, rfl⟩ := List.exists_cons_of_ne_nil hw.nonempty
  refine .next (fun i => ?_) h
  have hc := hw.chars c List.mem_cons_self
  obtain ⟨hl, hn⟩ := wordName_taken hw hf
  have hd : (c :: s ++ rest).drop (c :: s).length = rest := List.drop_left
  rw [List.cons_append, nextToken_of_head (isSpace_of_wordChar hc), lex, ← List.cons_append, hw.start, if_pos hc]
  simp only [lexWord, if_neg (Nat.not_le.mpr hl), hn, hw.word, hd]
  refine ⟨_, _, rfl, ?_⟩
  cases kinds <;> simp [place, Function.comp_def]

end Reads

section Literals

variable {layer : Layer} {w : CString} {kinds : List Kind} {k : Kind} {n : Words} {c : Char} {str : CString}

theorem symbol_of_alphanum (hc : c.isAlphanum) : symbol (c :: str) = none := by
  rw [symbol.eq_def]
  split <;> first
    | rfl
    | (rename_i he; cases he; cases hc)

theorem wordName_of_last (h : w.getLast? ≠ some ':') : wordName w = w :=
  if_neg fun hn => h hn.1

theorem getLast?_ne (h : ':' ∉ w) : w.getLast? ≠ some ':' :=
  fun hl => h (List.mem_of_getLast? hl)

-- Words that are not in the table.
theorem tokenLookup_eq_none (h : w.head?.any Char.isDigit ∨ ':' ∈ w) : tokenLookup w = none := by
  have hnames : tokenInfo.all fun e => !e.1.head?.any Char.isDigit && !e.1.contains ':' := by decide +kernel
  cases hl : tokenLookup w
  case none => rfl
  case some k =>
    have hn : w.head?.any Char.isDigit = false ∧ ':' ∉ w := by
      simpa using List.all_eq_true.mp hnames _ (tokenLookup_eq_some_iff.mp hl)
    rcases h with h | h
    · rw [hn.1] at h
      cases h
    · exact absurd h hn.2

-- Words of the table.
theorem spells_name (h : (w, k) ∈ tokenInfo) (hw : word layer w = some (.ok kinds)) :
    Spells layer w kinds ∧ Tight w := by
  have hnames : tokenInfo.all fun e => e.1.head?.any Char.isAlphanum && (decide (e.1.length ≤ 38) &&
      e.1.all fun c => isWordChar c && c != ':') := by decide +kernel
  have hn := List.all_eq_true.mp hnames _ h
  rw [Bool.and_eq_true, Bool.and_eq_true, decide_eq_true_eq, List.all_eq_true] at hn
  obtain ⟨hs, hl, hall⟩ := hn
  have hc : ∀ c ∈ w, isWordChar c ∧ c ≠ ':' := fun c hm => by simpa using hall c hm
  have hlast : w.getLast? ≠ some ':' := getLast?_ne fun hm => (hc _ hm).2 rfl
  cases w
  case nil => cases hs
  case cons c s =>
    refine ⟨⟨by simp, fun c hm => (hc c hm).1, fun rest => ?_, hl.trans (by decide), wordName_of_last hlast, hw⟩,
      hl, hlast⟩
    exact symbol_of_alphanum (by simpa using hs)

-- Words that start with a digit and hold no colon.
theorem spells_of_digit (hd : w.head?.any Char.isDigit) (hc : ∀ c ∈ w, isWordChar c ∧ c ≠ ':')
    (hl : w.length ≤ 39) (hw : literal w = some (.ok kinds)) : Spells layer w kinds := by
  have hlast : w.getLast? ≠ some ':' := getLast?_ne fun hm => (hc _ hm).2 rfl
  have hword : word layer w = some (.ok kinds) := by
    rw [word, tokenLookup_eq_none (.inl hd)]
    exact hw
  cases w
  case nil => cases hd
  case cons c s =>
    refine ⟨by simp, fun c hm => (hc c hm).1, fun rest => ?_, hl, wordName_of_last hlast, hword⟩
    have hd : c.isDigit := by simpa using hd
    exact symbol_of_alphanum (by simp [Char.isAlphanum, hd])

theorem wordChar_of_digit {b m : Nat} (hb : 1 < b) (hb' : b ≤ 16) (hc : c ∈ Nat.toDigits b m) :
    isWordChar c ∧ c ≠ ':' ∧ c ≠ 'x' := by
  have hall : ∀ d < 16, isWordChar (Nat.digitChar d) ∧ Nat.digitChar d ≠ ':' ∧ Nat.digitChar d ≠ 'x' := by decide
  obtain ⟨d, hd, rfl⟩ := Digits.mem_toDigits hb hc
  exact hall d (Nat.lt_of_lt_of_le hd hb')

theorem ne_b (hd : w.head?.any Char.isDigit) : w ≠ ['b'] := by
  rintro rfl
  cases hd

theorem digit_head (m : Nat) (str : CString) : (Nat.toDigits 10 m ++ str).head?.any Char.isDigit :=
  head_toDigits (by decide) fun _ => isDigit_digitChar

theorem spells_dec (n : Words) : Spells layer (Nat.toDigits 10 n.value) [.number n] := by
  obtain ⟨n', ha, hn⟩ := @aToI_toDigits [] _ n.value_lt (by simp)
  rw [List.append_nil, Words.value_inj.mp hn] at ha
  have hd : (Nat.toDigits 10 n.value).head?.any Char.isDigit := by simpa using digit_head n.value []
  refine spells_of_digit hd (fun c hc => ?_) ?_ ?_
  · have := wordChar_of_digit (by decide) (by decide) hc
    exact ⟨this.1, this.2.1⟩
  · exact (Nat.length_toDigits_le_iff (by decide) (by decide)).mpr (n.value_lt.trans (by decide))
  · rw [literal, if_neg (ne_b hd), ha]

theorem spells_dec32 (v : BitVec 32) : Spells layer (formatDecNumber32 v) [.number (.ofNarrow v)] := by
  have hv : (Words.ofNarrow v).value = v.toNat := by simp [Words.ofNarrow, Words.value_of]
  rw [formatDecNumber32_eq, ← hv]
  exact spells_dec _

-- The index of packet data, in bytes.
theorem spells_index (v : BitVec 32) :
    Spells layer (formatDecNumber32 v ++ ['b']) [.number (.ofNarrow v), .bytes] := by
  have hv : (Words.ofNarrow v).value = v.toNat := by simp [Words.ofNarrow, Words.value_of]
  have hlt := v.isLt
  obtain ⟨n, ha, hn⟩ := @aToI_toDigits ['b'] v.toNat (by omega) (by simp)
  rw [Words.value_inj.mp (hn.trans hv.symm)] at ha
  rw [formatDecNumber32_eq]
  have hd := digit_head v.toNat ['b']
  refine spells_of_digit hd (fun c hc => ?_) ?_ ?_
  · rcases List.mem_append.mp hc with hc | hc
    · have := wordChar_of_digit (by decide) (by decide) hc
      exact ⟨this.1, this.2.1⟩
    · obtain rfl := List.mem_singleton.mp hc
      decide
  · have : (Nat.toDigits 10 v.toNat).length ≤ 10 :=
      (Nat.length_toDigits_le_iff (by decide) (by decide)).mpr (by omega)
    simp
    omega
  · rw [literal, if_neg (ne_b hd), ha]
    rfl

theorem spells_hex (n : Words) : Spells layer ('0' :: 'x' :: Nat.toDigits 16 n.value) [.number n] := by
  obtain ⟨n', -, hx, hn⟩ := @aToX_toDigits [] _ n.value_lt (by simp)
  rw [List.append_nil, Words.value_inj.mp hn] at hx
  have ha : aToI ('0' :: 'x' :: Nat.toDigits 16 n.value) = some (.zero, 'x' :: Nat.toDigits 16 n.value) := by
    obtain ⟨m, ha, hm⟩ := @aToI_toDigits ('x' :: Nat.toDigits 16 n.value) 0 (by decide) (by simp)
    rw [eq_zero_iff.mpr hm] at ha
    exact ha
  refine spells_of_digit (by simp) (fun c hc => ?_) ?_ ?_
  · rcases List.mem_cons.mp hc with rfl | hc
    · decide
    rcases List.mem_cons.mp hc with rfl | hc
    · decide
    have := wordChar_of_digit (by decide) (by decide) hc
    exact ⟨this.1, this.2.1⟩
  · have : (Nat.toDigits 16 n.value).length ≤ 32 :=
      (Nat.length_toDigits_le_iff (by decide) (by decide)).mpr (n.value_lt.trans_le (by decide))
    simp
    omega
  · rw [literal, if_neg (by simp), ha, hx]
    rfl

-- What neither a number nor the start of one is, is an address.
theorem literal_of_address (hb : w ≠ ['b']) (hx : 'x' ∉ w) (ha : ∀ {n rest}, aToI w = some (n, rest) →
    ∃ c, c ∈ rest ∧ c ≠ 'b') : literal w = match parseIPv4Address w with
      | some addr => some (.ok [.number (.mapped addr)])
      | none      => (parseIPv6Address w).map fun
        | some addr => .ok [.number addr]
        | none      => .error .badToken := by
  have hx : aToX true w = none := by
    rw [aToX.eq_def, if_pos rfl]
    split
    case h_1 => simp at hx
    case h_2 => rfl
  rw [literal, if_neg hb, hx]
  split
  case h_1 n h =>
    obtain ⟨c, hc, -⟩ := ha h
    cases hc
  case h_2 n h =>
    obtain ⟨c, hc, hne⟩ := ha h
    exact absurd (List.mem_singleton.mp hc) hne
  case h_3 => rfl

theorem mem_dropWhile {p : Char → Bool} (hm : c ∈ w) (hp : p c = false) : c ∈ w.dropWhile p := by
  rw [← List.takeWhile_append_dropWhile (p := p) (l := w)] at hm
  refine (List.mem_append.mp hm).resolve_left fun ht => ?_
  rw [List.all_eq_true.mp List.all_takeWhile c ht] at hp
  cases hp

theorem spells_ipv4 (addr : BitVec 32) : Spells layer (formatIPv4Addr addr) [.number (.mapped addr)] := by
  have hlen {v : BitVec 32} (hv : v.toNat ≤ 0xFF) : (formatDecNumber32 v).length ≤ 3 := by
    rw [formatDecNumber32_eq]
    exact (Nat.length_toDigits_le_iff (by decide) (by decide)).mpr (Nat.lt_of_le_of_lt hv (by decide))
  have hchars : ∀ c ∈ formatIPv4Addr addr, isWordChar c ∧ c ≠ ':' ∧ c ≠ 'x' := by
    have hpart {v : BitVec 32} : ∀ c ∈ formatDecNumber32 v, isWordChar c ∧ c ≠ ':' ∧ c ≠ 'x' := by
      intro c hc
      rw [formatDecNumber32_eq] at hc
      exact wordChar_of_digit (by decide) (by decide) hc
    have hdot : isWordChar '.' ∧ '.' ≠ ':' ∧ '.' ≠ 'x' := by decide
    simp only [formatIPv4Addr, List.mem_append, List.mem_cons]
    rintro c (hc | rfl | hc | rfl | hc | rfl | hc)
    all_goals first | exact hdot | exact hpart c hc
  have hd : (formatIPv4Addr addr).head?.any Char.isDigit := by
    rw [formatIPv4Addr, formatDecNumber32_eq]
    exact digit_head _ _
  have hdot {n : Words} {rest : CString} (ha : aToI (formatIPv4Addr addr) = some (n, rest)) :
      ∃ c, c ∈ rest ∧ c ≠ 'b' := by
    rw [aToI_suffix ha]
    exact ⟨'.', mem_dropWhile (by simp [formatIPv4Addr]) (by decide), by decide⟩
  refine spells_of_digit hd (fun c hc => ⟨(hchars c hc).1, (hchars c hc).2.1⟩) ?_ ?_
  · have h₃ := hlen (@part_le addr 24 0xFF000000 (by decide))
    have h₂ := hlen (@part_le addr 16 0x00FF0000 (by decide))
    have h₁ := hlen (@part_le addr 8 0x0000FF00 (by decide))
    have h₀ := hlen (@last_part_le addr)
    simp only [formatIPv4Addr, List.length_append, List.length_cons]
    omega
  · rw [literal_of_address (ne_b hd) (fun hm => (hchars _ hm).2.2 rfl) hdot, parseIPv4Address_format]

end Literals

section IPv6

variable {layer : Layer} {g : BitVec 16} {gs pre post : List (BitVec 16)} {a : Words} {c : Char}

def IsGroupChar (c : Char) : Prop :=
  isWordChar c ∧ c ≠ 'x' ∧ c ≠ '.'

theorem groupChar_hex (hc : c ∈ hex g) : IsGroupChar c ∧ c ≠ ':' ∧ c.isAlphanum := by
  have hall : ∀ d < 16, (isWordChar (Nat.digitChar d) ∧ Nat.digitChar d ≠ 'x' ∧ Nat.digitChar d ≠ '.') ∧
      Nat.digitChar d ≠ ':' ∧ (Nat.digitChar d).isAlphanum := by decide
  obtain ⟨d, hd, rfl⟩ := Digits.mem_toDigits (by decide) hc
  exact hall d hd

theorem groupChar_colon : IsGroupChar ':' := by
  rw [IsGroupChar]
  decide

theorem groupChar_joined (hc : c ∈ joined gs) : IsGroupChar c := by
  induction gs using joined.induct
  case case1 => cases hc
  case case2 => exact (groupChar_hex hc).1
  case case3 g gs hne ih =>
    rw [joined] at hc
    · rcases List.mem_append.mp hc with hc | hc
      · exact (groupChar_hex hc).1
      rcases List.mem_cons.mp hc with rfl | hc
      · exact groupChar_colon
      · exact ih hc
    · exact hne

theorem groupChar_leading (hc : c ∈ leading gs) : IsGroupChar c := by
  obtain ⟨g, -, hc⟩ := List.mem_flatMap.mp hc
  rcases List.mem_append.mp hc with hc | hc
  · exact (groupChar_hex hc).1
  · exact List.mem_singleton.mp hc ▸ groupChar_colon

theorem length_joined (gs : List (BitVec 16)) : (joined gs).length ≤ 5 * gs.length - 1 := by
  induction gs using joined.induct
  case case1 => simp [joined]
  case case2 g => exact length_hex g
  case case3 g gs hne ih =>
    have hg := length_hex g
    have hpos : 0 < gs.length := List.length_pos_iff.mpr hne
    rw [joined]
    · simp only [List.length_append, List.length_cons]
      omega
    · exact hne

theorem length_leading (gs : List (BitVec 16)) : (leading gs).length ≤ 5 * gs.length := by
  induction gs
  case nil => simp [leading]
  case cons g gs ih =>
    have hg := length_hex g
    rw [leading] at ih
    simp only [leading, List.flatMap_cons, List.length_append, List.length_cons, List.length_nil]
    omega

-- The last group has a digit at its end.
theorem getLast?_joined (h : gs ≠ []) : ∀ c ∈ (joined gs).getLast?, c ≠ ':' := by
  obtain ⟨pre, g, rfl⟩ := (List.eq_nil_or_concat gs).resolve_left h
  rw [List.concat_eq_append, joined_concat]
  intro c hc
  have hne : hex g ≠ [] := Nat.toDigits_ne_nil
  rw [List.getLast?_append_of_ne_nil _ hne] at hc
  exact (groupChar_hex (List.mem_of_getLast? hc)).2.1

theorem symbol_hex {str : CString} : symbol (hex g ++ str) = none := by
  obtain ⟨d, s, h, -⟩ := head_hex g
  rw [h, List.cons_append]
  exact symbol_of_alphanum (groupChar_hex (h ▸ List.mem_cons_self)).2.2

-- An address begins with a digit or with two colons, and a colon at its end is not alone.
structure IsAddress (w : CString) : Prop where
  chars  : ∀ c ∈ w, IsGroupChar c
  colon  : ':' ∈ w
  start  : ∀ rest, Text.symbol (w ++ rest) = none
  length : w.length ≤ 39
  last   : w.getLast? = some ':' → w.dropLast.getLast? = some ':'

theorem symbol_joined (h : gs ≠ []) (rest : CString) : symbol (joined gs ++ rest) = none := by
  obtain ⟨g, gs, rfl⟩ := List.exists_cons_of_ne_nil h
  cases gs
  case nil => exact symbol_hex
  case cons g' gs =>
    rw [joined, List.append_assoc]
    · exact symbol_hex
    · simp

theorem isAddress_joined (h : gs.length = 8) : IsAddress (joined gs) where
  chars _ := groupChar_joined
  colon   := by
    obtain ⟨g, gs, rfl⟩ := List.exists_cons_of_ne_nil (show gs ≠ [] by rintro rfl; cases h)
    rw [joined]
    · simp
    · rintro rfl
      cases h
  start   := symbol_joined (by rintro rfl; cases h)
  length  := by
    have := length_joined gs
    omega
  last hl := absurd rfl (getLast?_joined (by rintro rfl; cases h) ':' hl)

theorem getLast?_leading (h : pre ≠ []) : (leading pre).getLast? = some ':' := by
  obtain ⟨pre, g, rfl⟩ := (List.eq_nil_or_concat pre).resolve_left h
  simp [leading]

theorem symbol_leading (h : pre ≠ []) (rest : CString) : symbol (leading pre ++ rest) = none := by
  obtain ⟨g, pre, rfl⟩ := List.exists_cons_of_ne_nil h
  rw [leading, List.flatMap_cons, List.append_assoc, List.append_assoc]
  exact symbol_hex

-- The front of an address with a run of zeros.
theorem isAddress_run (h : pre.length + post.length ≤ 7) :
    IsAddress ((if pre = [] then [':', ':'] else leading pre ++ [':']) ++ joined post) where
  chars c hc := by
    rcases List.mem_append.mp hc with hc | hc
    case inr => exact groupChar_joined hc
    case inl =>
      split at hc
      case isTrue =>
        obtain rfl : c = ':' := by simpa using hc
        exact groupChar_colon
      case isFalse =>
        rcases List.mem_append.mp hc with hc | hc
        · exact groupChar_leading hc
        · exact List.mem_singleton.mp hc ▸ groupChar_colon
  colon := by split <;> simp
  start rest := by
    split
    case isTrue => rfl
    case isFalse hne => simpa only [List.append_assoc] using symbol_leading hne _
  length := by
    have hl := length_leading pre
    have hj := length_joined post
    split
    case isTrue hp =>
      subst hp
      simp only [List.length_append, List.length_cons, List.length_nil] at h ⊢
      omega
    case isFalse hp =>
      have hpos := List.length_pos_iff.mpr hp
      simp only [List.length_append, List.length_cons, List.length_nil]
      omega
  last hl := by
    by_cases hp : post = []
    case neg =>
      rw [List.getLast?_append_of_ne_nil _ (joined_ne_nil hp)] at hl
      exact absurd rfl (getLast?_joined hp ':' hl)
    case pos =>
      subst hp
      rw [joined, List.append_nil]
      split
      case isTrue => rfl
      case isFalse hne => rw [List.dropLast_concat, getLast?_leading hne]

theorem isAddress_format (h : a.isMappedIpv4 = false) : IsAddress (formatIPv6Addr a) := by
  rcases formatIPv6Addr_eq h with hf | ⟨pre, m, post, -, hl, hf⟩
  case inl => exact hf ▸ isAddress_joined (length_groups a)
  case inr => exact hf ▸ isAddress_run hl

theorem spells_ipv6 (a : Words) : Spells layer (formatIPv6Addr a) [.number a] := by
  cases hm : a.isMappedIpv4
  case true =>
    have hf : formatIPv6Addr a = formatIPv4Addr (a.word 0) := by
      rw [formatIPv6Addr, if_pos (by simpa [Words.isMappedIpv4, and_assoc] using hm)]
    rw [hf]
    conv in Kind.number a => rw [Words.eq_mapped hm]
    exact spells_ipv4 (a.word 0)
  case false =>
    have hw := isAddress_format hm
    have hdigit : Char.isDigit ':' = false := by decide
    have ha {n : Words} {rest : CString} (h : aToI (formatIPv6Addr a) = some (n, rest)) :
        ∃ c, c ∈ rest ∧ c ≠ 'b' := by
      rw [aToI_suffix h]
      exact ⟨':', mem_dropWhile hw.colon hdigit, by decide⟩
    have hb : formatIPv6Addr a ≠ ['b'] := fun h => by
      have := hw.colon
      simp [h] at this
    refine ⟨List.ne_nil_of_mem hw.colon, fun c hc => (hw.chars c hc).1, hw.start, hw.length, ?_, ?_⟩
    · exact if_neg fun h => h.2 (hw.last h.1)
    · rw [word, tokenLookup_eq_none (.inr hw.colon)]
      simp only []
      rw [literal_of_address hb (fun hx => (hw.chars _ hx).2.1 rfl) ha,
        parseIPv4Address_of_not_mem fun hd => (hw.chars _ hd).2.2 rfl, parseIPv6Address_format hm]
      rfl

-- Whatever number or address is written, it is read back, on every layer.
theorem word_of_written (layer : Layer) (n : Words) (addr : BitVec 32) :
    (formatDecNumber n).bind (word layer) = some (.ok [.number n]) ∧
    word layer ('0' :: 'x' :: formatHexNumber n) = some (.ok [.number n]) ∧
    word layer (formatIPv4Addr addr) = some (.ok [.number (.mapped addr)]) ∧
    word layer (formatIPv6Addr n) = some (.ok [.number n]) := by
  refine ⟨?_, ?_, (spells_ipv4 addr).word, (spells_ipv6 n).word⟩
  · rw [formatDecNumber_eq]
    exact (spells_dec n).word
  · rw [formatHexNumber_eq]
    exact (spells_hex n).word

end IPv6

end Wd.Text
