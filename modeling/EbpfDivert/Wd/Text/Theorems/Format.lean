import EbpfDivert.Wd.Text.Format
import EbpfDivert.Wd.Text.Theorems.Decompile
import EbpfDivert.Wd.Theorems.Serialize

-- What is written into the buffer.
namespace Wd.Text

section Stream

variable {w w' : Writer} {str str' p buf : Bytes} {s : Stream} {overflow : Bool}

theorem putString_append : s.putString (str ++ str') = (s.putString str).putString str' :=
  List.foldl_append ..

theorem putString_full (h : full s) : ∃ o, s.putString str = { s with overflow := o } ∧ (s.overflow → o) := by
  induction str generalizing s
  case nil => exact ⟨s.overflow, rfl, id⟩
  case cons c str ih =>
    have hc : s.putChar c = { s with overflow := true } := if_pos (by simpa [full] using h)
    obtain ⟨o, ho, hi⟩ := ih (s := { s with overflow := true }) h
    exact ⟨o, by rw [Stream.putString, List.foldl_cons, hc]; exact ho, fun _ => hi rfl⟩

-- A writer puts as much of a string into the buffer as there is room for, and notices nothing else
-- than that there is not enough of it.
def Writes (w : Writer) (str : Bytes) : Prop :=
  ∀ p buf overflow, ∃ o, w ⟨p ++ buf, p.length, overflow⟩ =
      some ⟨p ++ str.take buf.length ++ buf.drop str.length, (p ++ str.take buf.length).length, o⟩ ∧
    (overflow → o) ∧ (str.length ≤ buf.length → o = overflow)

theorem writes_none : Writes some [] := by
  intro p buf overflow
  exact ⟨overflow, by simp, id, fun _ => rfl⟩

theorem writes_put (str : CString) : Writes (put str) (str.map chr) := by
  intro p buf overflow
  generalize hw : str.map chr = w
  simp only [put, hw]
  by_cases h : w.length ≤ buf.length
  case pos =>
    refine ⟨overflow, ?_, id, fun _ => rfl⟩
    rw [Stream.putString_eq h, List.take_of_length_le h]
  case neg =>
    have hle : buf.length ≤ w.length := Nat.le_of_not_le h
    have ht : (w.take buf.length).length = buf.length := by simpa using hle
    conv in Stream.putString _ w => rw [← List.take_append_drop buf.length w]
    rw [putString_append, Stream.putString_eq ht.le, ht, List.drop_length, List.append_nil,
      List.drop_of_length_le hle, List.append_nil]
    have hfull : full ⟨p ++ w.take buf.length, (p ++ w.take buf.length).length, overflow⟩ := by simp [full]
    obtain ⟨o, ho, hi⟩ := putString_full hfull
    exact ⟨o, by rw [ho], hi, fun hl => absurd hl h⟩

theorem Writes.seq (h : Writes w str) (h' : Writes w' str') : Writes (seq w w') (str ++ str') := by
  intro p buf overflow
  obtain ⟨o, ho, hi, he⟩ := h p buf overflow
  obtain ⟨o', ho', hi', he'⟩ := h' (p ++ str.take buf.length) (buf.drop str.length) o
  refine ⟨o', ?_, hi' ∘ hi, fun hl => ?_⟩
  · rw [Text.seq, ho, Option.bind_some, ho']
    simp only [List.take_append, List.length_drop, List.drop_drop, List.length_append, List.append_assoc]
  · rw [List.length_append] at hl
    rw [he' (by rw [List.length_drop]; omega), he (by omega)]

theorem Writes.unlessFull (h : Writes w str) : Writes (unlessFull w) str := by
  intro p buf overflow
  by_cases hf : full ⟨p ++ buf, p.length, overflow⟩
  case neg =>
    rw [Text.unlessFull, if_neg hf]
    exact h p buf overflow
  case pos =>
    have hb : buf = [] := by
      simp only [full, List.length_append, decide_eq_true_eq] at hf
      exact List.eq_nil_of_length_eq_zero (by omega)
    rw [Text.unlessFull, if_pos hf, hb]
    exact ⟨overflow, by simp, id, fun _ => rfl⟩

theorem writes_putWhen {b : Bool} (str : CString) :
    Writes (putWhen b str) ((if b then str else []).map chr) := by
  cases b
  case true  => exact writes_put str
  case false => exact writes_none

end Stream

section Text

variable {layer : Layer} {t : TestExpr} {f : Formula TestExpr} {str : CString}

def numberText (layer : Layer) (t : TestExpr) : Option CString :=
  match t.var with
  | .field f _ => formatValue layer f t.val.val
  | _          => formatDecNumber t.val.val

def comparedText (layer : Layer) (t : TestExpr) : Option CString := do
  let var ← formatVar t.var
  let number ← numberText layer t
  some (var ++ (comparison t.kind).toList ++ (if t.val.neg then ['-'] else []) ++ number)

-- The text of a test.
def testText (layer : Layer) (t : TestExpr) : Option CString :=
  match t.var with
  | .field f _ =>
    match negated t f with
    | some not => (formatVar t.var).map ((if not then "not ".toList else []) ++ ·)
    | none     => comparedText layer t
  | _          => comparedText layer t

def parens (b : Bool) (str : CString) : CString :=
  if b then '(' :: (str ++ [')']) else str

-- The text of an expression.
def exprText (layer : Layer) : Formula TestExpr → (topLevel and : Bool) → Option CString
  | .const b,     _,   _   => some (if b then "true".toList else "false".toList)
  | .ask t,       _,   _   => testText layer t
  | .and a b,     top, and => do
    let a ← exprText layer a false true
    let b ← exprText layer b false true
    some (parens (!top && !and) (a ++ " and ".toList ++ b))
  | .or a b,      top, and => do
    let a ← exprText layer a false false
    let b ← exprText layer b false false
    some (parens (!top && and) (a ++ " or ".toList ++ b))
  | .ite c th el, _,   _   => do
    let c ← exprText layer c true false
    let th ← exprText layer th true false
    let el ← exprText layer el true false
    some ('(' :: (c ++ "? ".toList ++ th ++ ": ".toList ++ el ++ [')']))

theorem writes_putVar {v : Var} (h : formatVar v = some str) : Writes (putVar v) (str.map chr) := by
  refine Writes.unlessFull ?_
  simp only [h, Option.bind_some]
  exact writes_put str

theorem writes_compared (h : comparedText layer t = some str) :
    Writes (seq (putVar t.var) (putNumber layer t)) (str.map chr) := by
  simp only [comparedText, Option.bind_eq_bind, Option.bind_eq_some_iff, Option.some.injEq] at h
  obtain ⟨var, hv, number, hn, rfl⟩ := h
  have hw : Writes (fun s => match t.var with
      | .field f _ => (formatValue layer f t.val.val).bind (put · s)
      | _          => (formatDecNumber t.val.val).bind (put · s)) (number.map chr) := by
    rw [numberText] at hn
    split at hn <;> simp only [hn, Option.bind_some] <;> exact writes_put number
  simp only [List.map_append, List.append_assoc]
  exact (writes_putVar hv).seq ((writes_put _).seq ((writes_putWhen _).seq hw))

theorem writes_formatTestExpr (h : testText layer t = some str) :
    Writes (formatTestExpr layer t) (str.map chr) := by
  cases hv : t.var
  case true | false =>
    simp only [formatTestExpr, hv]
    exact hv ▸ writes_compared (by simpa only [testText, hv] using h)
  case field f idx =>
    cases hn : negated t f
    case none =>
      simp only [formatTestExpr, hv, hn]
      exact hv ▸ writes_compared (by simpa only [testText, hv, hn] using h)
    case some not =>
      simp only [testText, hv, hn] at h
      simp only [formatTestExpr, hv, hn]
      obtain ⟨var, hvar, rfl⟩ := Option.map_eq_some_iff.mp h
      rw [List.map_append]
      exact (writes_putWhen _).seq (writes_putVar hvar)

theorem map_parens {b : Bool} : (parens b str).map chr =
    (if b then ['('] else []).map chr ++ (str.map chr ++ (if b then [')'] else []).map chr) := by
  cases b <;> simp [parens]

-- One case per kind of expression, each of which is written piece by piece.
theorem writes_formatExpr {top and : Bool} (h : exprText layer f top and = some str) :
    Writes (formatExpr layer f top and) (str.map chr) := by
  induction f generalizing top and str
  case const b =>
    cases h
    exact (writes_put _).unlessFull
  case ask t => exact (writes_formatTestExpr h).unlessFull
  case and a b iha ihb =>
    simp only [exprText, Option.bind_eq_bind, Option.bind_eq_some_iff, Option.some.injEq] at h
    obtain ⟨sa, ha, sb, hb, rfl⟩ := h
    rw [map_parens, List.map_append, List.map_append, List.append_assoc, List.append_assoc]
    exact ((writes_putWhen _).seq
      ((iha ha).seq ((writes_put _).seq ((ihb hb).seq (writes_putWhen _))))).unlessFull
  case or a b iha ihb =>
    simp only [exprText, Option.bind_eq_bind, Option.bind_eq_some_iff, Option.some.injEq] at h
    obtain ⟨sa, ha, sb, hb, rfl⟩ := h
    rw [map_parens, List.map_append, List.map_append, List.append_assoc, List.append_assoc]
    exact ((writes_putWhen _).seq
      ((iha ha).seq ((writes_put _).seq ((ihb hb).seq (writes_putWhen _))))).unlessFull
  case ite c th el ihc iht ihe =>
    simp only [exprText, Option.bind_eq_bind, Option.bind_eq_some_iff, Option.some.injEq] at h
    obtain ⟨sc, hc, st, ht, se, he, rfl⟩ := h
    rw [← List.singleton_append]
    simp only [List.map_append, List.append_assoc]
    exact ((writes_put _).seq ((ihc hc).seq ((writes_put _).seq ((iht ht).seq ((writes_put _).seq
      ((ihe he).seq (writes_put _))))))).unlessFull

end Text

section Buffer

variable {layer : Layer} {filter text : CString} {object : List Insn} {f : Formula TestExpr} {buf : Bytes}

-- What a buffer holds after a text has been written into it.
def holding (text : CString) (buf : Bytes) : Bytes :=
  let kept := (text.map chr).take (buf.length - 1)
  kept ++ 0 :: buf.drop (kept.length + 1)

theorem putNul_holding {o : Bool} (hb : 0 < buf.length) :
    (Stream.mk ((text.map chr).take buf.length ++ buf.drop (text.map chr).length)
      ((text.map chr).take buf.length).length o).putNul =
      ⟨holding text buf, min (text.length + 1) buf.length, o⟩ := by
  generalize hw : text.map chr = w
  have hlen : text.length = w.length := by rw [← hw, List.length_map]
  rw [holding, hw, hlen]
  by_cases hl : w.length < buf.length
  case pos =>
    rw [List.take_of_length_le hl.le, List.take_of_length_le (by omega : w.length ≤ buf.length - 1)]
    obtain ⟨c, rest, hrest⟩ := List.exists_cons_of_length_pos
      (show 0 < (buf.drop w.length).length by rw [List.length_drop]; omega)
    have hdrop : buf.drop (w.length + 1) = rest := by rw [← List.drop_drop, hrest]; rfl
    rw [hrest, hdrop, Stream.putNul, if_neg (by simp), Stream.putChar, if_neg (by simp)]
    simp
    omega
  case neg =>
    have hle : buf.length ≤ w.length := Nat.le_of_not_lt hl
    have ht : (w.take buf.length).length = buf.length := by simpa using hle
    have ht' : (w.take (buf.length - 1)).length = buf.length - 1 := by simp; omega
    rw [List.drop_of_length_le hle, List.append_nil, Stream.putNul, ht, ht', Nat.sub_add_cancel hb,
      List.drop_length, if_pos ⟨Nat.le_refl _, hb⟩, Nat.min_eq_right (by omega)]
    congr 1
    obtain ⟨n, hn⟩ : ∃ n, buf.length = n + 1 := ⟨buf.length - 1, by omega⟩
    have hn' : n < w.length := by omega
    rw [hn, Nat.add_sub_cancel, List.take_add_one, List.getElem?_eq_getElem hn', Option.toList_some,
      List.set_append_right _ _ (by simp)]
    simp [Nat.min_eq_left hn'.le]

section Pool

variable {s : List Kind} {e : Expr}

theorem exprs_of_isVar {v : Var} (h : IsVar s v) : (s.map Kind.exprs).sum ≤ s.length := by
  cases h
  case true | false => decide
  case field ha => simp [Kind.exprs, ha]
  case data neg bytes ha _ _ => cases neg <;> cases bytes <;> simp [Kind.exprs, ha, optionally]

-- The parser makes at most one expression for each symbol.
theorem Derives.exprs_le {c : Category} (h : Derives c s e) : (s.map Kind.exprs).sum ≤ s.length := by
  induction h
  case test ht =>
    cases ht
    case bare hv =>
      have := exprs_of_isVar hv
      simp [Kind.exprs]
      omega
    case compare op t n nots neg hv ho =>
      have := exprs_of_isVar hv
      have hop : op.exprs ≤ 1 := by cases op <;> simp [Kind.test, Kind.exprs] at ho ⊢
      have hn : Kind.exprs (.number n) = 0 ∧ Kind.exprs .minus = 0 ∧ Kind.exprs .not = 0 :=
        ⟨rfl, rfl, rfl⟩
      cases neg <;> simp [hn, optionally] <;> omega
  case paren ih => simp [Kind.exprs]; omega
  case question ihc iht ihe => simp [Kind.exprs]; omega
  case single ih | conjunction ih => exact ih
  case and iha ihb | or iha ihb => simp [Kind.exprs]; omega

-- Compiling leaves room for all tests, and for merging them.
theorem le_roomAfter (hc : compileFilter layer filter = some (.ok object)) :
    4 * filterMaxLen * exprSize ≤ roomAfter layer filter := by
  rw [roomAfter]
  by_cases ha : filter.head? = some '@'
  case pos =>
    rw [if_pos ha]
    decide
  case neg =>
    obtain ⟨s, e, h⟩ := compiles_of_ok ha hc
    obtain ⟨pre, p, ht, rfl⟩ := h.reads
    have hroom := (tokenized_of_ok ht).room
    have hle := h.derives.exprs_le
    have hsum : ((pre ++ [(⟨.eof, some p⟩ : Token)]).map fun tok => tok.kind.exprs).sum =
        ((pre.map Token.kind).map Kind.exprs).sum := by
      rw [List.map_append, List.sum_append, List.map_map]
      rfl
    rw [if_neg ha, ht]
    simp only [hsum]
    rw [List.length_map] at hle
    rw [List.length_append, List.length_singleton, tokensMax, filterMaxLen] at hroom
    rw [poolSize, exprSize, filterMaxLen]
    omega

end Pool

-- The text is cut off where the buffer ends. One that is a single character too long is cut off
-- without an error. If the expressions of the filter do not fit into the pool, nothing is written.
theorem formatFilter_holding (hc : compileFilter layer filter = some (.ok object)) (hb : 0 < buf.length) :
    (∀ {f text}, decompileFilter (roomAfter layer filter) object = some (some f) →
      exprText layer f true false = some text → ∃ ok,
      formatFilter layer filter buf = some (holding text buf, ok) ∧
        (text.length ≤ buf.length → ok = true)) ∧
    (Formattable object → ∃ f k,
      (∀ {room}, 4 * object.length * exprSize ≤ room →
        decompileFilter room object = some ((alloc k room).map fun _ => f)) ∧
      (roomAfter layer filter < k * exprSize → formatFilter layer filter buf = some (buf, false))) := by
  constructor
  case left =>
    intro f text hd ht
    obtain ⟨o, ho, -, he⟩ := writes_formatExpr ht [] buf false
    simp only [List.nil_append, List.length_nil] at ho
    refine ⟨!o, ?_, fun hl => by rw [he (by simpa using hl)]; rfl⟩
    simp only [formatFilter, hc, hd, ho, Option.bind_eq_bind, Option.bind_some, putNul_holding hb]
  case right =>
    intro hf
    obtain ⟨f, k, hd, -⟩ := decompileFilter_spec hf
    refine ⟨f, k, hd, fun hk => ?_⟩
    have hroom :=
      (Nat.mul_le_mul_right exprSize (Nat.mul_le_mul_left 4 hf.le_max)).trans (le_roomAfter hc)
    simp only [formatFilter, hc, hd hroom, alloc, if_neg (Nat.not_le.mpr hk), Option.bind_eq_bind,
      Option.bind_some, Option.map_none]

def webFormula : Formula TestExpr :=
  .or
    (.and
      (.ite (.ask ⟨.neq, makeVar .outbound, makeZero⟩)
        (.ask ⟨.eq, makeVar .tcpDstPort, ⟨false, .ofNarrow 443⟩⟩)
        (.ask ⟨.eq, makeVar .tcpSrcPort, ⟨false, .ofNarrow 443⟩⟩))
      (.ask ⟨.eq, makeVar .loopback, makeZero⟩))
    (.ask ⟨.neq, makeVar .udp, makeZero⟩)

def webPrinted : CString :=
  "((outbound? tcp.DstPort = 443: tcp.SrcPort = 443) and not loopback) or udp".toList

set_option maxRecDepth 10000 in
theorem exprText_web : exprText .network webFormula true false = some webPrinted := by
  decide +kernel

def webBuffer : Bytes :=
  .replicate 16 0xFF

set_option maxRecDepth 10000 in
theorem formatFilter_web :
    (∃ ok, formatFilter .network webText webBuffer = some ("((outbound? tcp".toList.map chr ++ [0], ok)) ∧
    ∃ f k, (∀ {room}, 4 * webObject.length * exprSize ≤ room →
        decompileFilter room webObject = some ((alloc k room).map fun _ => f)) ∧
      (roomAfter .network webText < k * exprSize →
        formatFilter .network webText webBuffer = some (webBuffer, false)) := by
  have h := formatFilter_holding compileFilter_web (show 0 < webBuffer.length by decide)
  constructor
  case left =>
    have hd : decompileFilter (roomAfter .network webText) webObject = some (some webFormula) := by
      decide +kernel
    obtain ⟨ok, hok, -⟩ := h.left hd exprText_web
    have hheld : holding webPrinted webBuffer = "((outbound? tcp".toList.map chr ++ [0] := by
      decide +kernel
    exact ⟨ok, hheld ▸ hok⟩
  case right => exact h.right (formattable_of_length (by decide) (by decide) (by decide))

-- A small pool is exhausted before the tests are merged.
example : decompileFilter 300 webObject = some none := by decide +kernel

end Buffer

end Wd.Text
