import EbpfDivert.Wd.Serialize
import EbpfDivert.Wd.Theorems.Execute

-- The deserializer reads what the serializer writes.
namespace Wd

open Reader (Reads Prompt)

section Numbers

variable {val acc : BitVec 32} {dig left n : Nat}

theorem decodeDigit_encodeDigit (d : Nat) (final : Bool) :
    decodeDigit (encodeDigit d final) = some (d % 32, final) := by
  have h : ∀ d < 32, ∀ final, decodeDigit (encodeDigit d final) = some (d, final) := by decide
  have hm : encodeDigit d final = encodeDigit (d % 32) final := by
    rw [encodeDigit, encodeDigit, Nat.mod_mod]
  rw [hm, h _ (Nat.mod_lt _ (by decide))]

-- What has been read leaves room for another digit.
theorem and_top_eq_zero (h : acc.toNat < 2 ^ 27) : acc &&& 0xF8000000 = 0 := by
  refine BitVec.eq_of_getLsbD_eq fun i hi => ?_
  rw [BitVec.getLsbD_and]
  by_cases hj : i < 27
  case pos =>
    have : ∀ i < 27, (0xF8000000#32).getLsbD i = false := by decide
    simp [this i hj]
  case neg =>
    have : acc.getLsbD i = false :=
      Nat.testBit_lt_two_pow (Nat.lt_of_lt_of_le h (Nat.pow_le_pow_right (by decide) (by omega)))
    simp [this]

theorem div_pow_lt : val.toNat / 32 ^ (dig + 1) < 2 ^ 27 := by
  have hp : 32 ≤ 32 ^ (dig + 1) := Nat.le_self_pow (by omega) 32
  have hd : val.toNat / 32 ^ (dig + 1) ≤ val.toNat / 32 := Nat.div_le_div_left hp (by decide)
  omega

theorem div_pow_succ : 32 * (val.toNat / 32 ^ (dig + 1)) + digit val dig = val.toNat / 32 ^ dig := by
  rw [digit, Nat.pow_succ, ← Nat.div_div_eq_div_mul]
  exact Nat.div_add_mod ..

theorem toNat_read_digit (ha : acc.toNat = val.toNat / 32 ^ (dig + 1)) :
    (acc <<< 5 + BitVec.ofNat 32 (digit val dig)).toNat = val.toNat / 32 ^ dig := by
  have hl : acc.toNat < 2 ^ 27 := ha ▸ div_pow_lt
  have hd : digit val dig < 32 := Nat.mod_lt _ (by decide)
  rw [← div_pow_succ, ← ha, BitVec.toNat_add, BitVec.toNat_shiftLeft, BitVec.toNat_ofNat,
    Nat.shiftLeft_eq]
  omega

theorem reads_digit (ha : acc.toNat = val.toNat / 32 ^ (dig + 1)) {final : Bool} {w : Bytes}
    {b : BitVec 32} (hr : (if final then pure (acc <<< 5 + .ofNat 32 (digit val dig)) else
      deserializeDigits left (acc <<< 5 + .ofNat 32 (digit val dig)) : TextReader _).Reads w b) :
    (deserializeDigits (left + 1) acc).Reads (encodeDigit (digit val dig) final :: w) b := by
  have hd : decodeDigit (encodeDigit (digit val dig) final) = some (digit val dig, final) := by
    rw [decodeDigit_encodeDigit, digit, Nat.mod_mod]
  exact .check ((and_top_eq_zero (ha ▸ div_pow_lt))) (.bind (.next hd) hr)

-- Digit by digit: the digits before `dig` have been read.
theorem reads_digits (hl : dig < left) (ha : acc.toNat = val.toNat / 32 ^ (dig + 1)) :
    (deserializeDigits left acc).Reads (putDigits val dig) val := by
  induction dig generalizing left acc
  all_goals
    obtain ⟨left, rfl⟩ : ∃ n, left = n + 1 := ⟨left - 1, by omega⟩
    have hn := toNat_read_digit ha
    refine reads_digit ha ?_
  case zero =>
    have : acc <<< 5 + .ofNat 32 (digit val 0) = val := BitVec.eq_of_toNat_eq (by simpa using hn)
    rw [this]
    exact .pure
  case succ dig ih => exact ih (Nat.lt_of_succ_lt_succ hl) hn

theorem div_leadingDigit (h : val.toNat / 32 ^ (n + 1) = 0) :
    val.toNat / 32 ^ (leadingDigit val n + 1) = 0 := by
  induction n
  case zero => exact h
  case succ n ih =>
    rw [leadingDigit]
    split
    case isTrue hd =>
      refine ih ?_
      rw [← div_pow_succ, h, hd]
    case isFalse => exact h

theorem leadingDigit_lt (h : val.toNat < 32 ^ left) (hl : 0 < left) : leadingDigit val n < left := by
  induction n
  case zero => exact hl
  case succ n ih =>
    rw [leadingDigit]
    split
    case isTrue => exact ih
    case isFalse hd =>
      -- The digit is not zero, so the number is at least as large as its power.
      by_contra hn
      have hp : 32 ^ left ≤ 32 ^ (n + 1) := Nat.pow_le_pow_right (by decide) (by omega)
      rw [digit, Nat.div_eq_of_lt (Nat.lt_of_lt_of_le h hp)] at hd
      exact hd rfl

theorem reads_number (h : val.toNat < 32 ^ left) (hl : 0 < left) :
    (deserializeNumber left).Reads (serializeNumber val) val := by
  refine reads_digits (leadingDigit_lt h hl) ?_
  rw [div_leadingDigit (Nat.div_eq_of_lt (Nat.lt_trans val.isLt (by decide)))]
  rfl

theorem reads_number_ofNat (h : n < 32 ^ left) (hl : 0 < left) (hn : n < 2 ^ 32) :
    (deserializeNumber left).Reads (serializeNumber (.ofNat 32 n)) (.ofNat 32 n) := by
  refine reads_number ?_ hl
  rwa [BitVec.toNat_ofNat, Nat.mod_eq_of_lt hn]

theorem reads_word (val : BitVec 32) : (deserializeNumber 7).Reads (serializeNumber val) val :=
  reads_number (Nat.lt_trans val.isLt (by decide)) (by decide)

theorem prompt_digits : Prompt 0 (deserializeDigits left acc) := by
  induction left generalizing acc
  case zero => exact .failure
  case succ left ih =>
    refine .bind .guard fun _ => .bind (.next (by decide)) fun ⟨digit, final⟩ => ?_
    cases final
    case true  => exact .pure
    case false => exact ih

theorem prompt_number : Prompt 0 (deserializeNumber n) :=
  prompt_digits

end Numbers

section Tests

variable {insn : Insn} {label : Nat} {kind : ArgKind} {c : BitVec 8}

theorem reads_literal : (literal c).Reads [c] () :=
  .next (if_pos rfl)

theorem prompt_literal (h : c ≠ 0) : Prompt 0 (literal c) :=
  .next (if_neg (Ne.symm h))

theorem prompt_label : Prompt 0 deserializeLabel := by
  refine .bind (.next (by decide)) fun label => ?_
  cases label
  case none   => exact .bind prompt_number fun _ => .bind .guard fun _ => .pure
  case some _ => exact .pure

theorem prompt_code {α : Type} {all : List α} : Prompt 0 (deserializeCode all) := by
  refine .bind prompt_number fun val => ?_
  split
  case h_1 => exact .pure
  case h_2 => exact .failure

theorem prompt_arg : Prompt 0 (deserializeArg kind) := by
  refine .bind prompt_number fun _ => ?_
  cases kind
  case full =>
    exact .bind prompt_number fun _ => .bind prompt_number fun _ => .bind prompt_number fun _ => .pure
  case wide | index => exact .bind prompt_number fun _ => .pure
  case narrow | mapped => exact .pure

theorem prompt_test : Prompt 0 deserializeTest :=
  .bind (prompt_literal (by decide)) fun _ => .bind prompt_code fun _ => .bind prompt_code fun _ =>
  .bind prompt_number fun _ => .bind .guard fun _ => .bind prompt_arg fun _ =>
  .bind prompt_label fun _ => .bind prompt_label fun _ => .pure

-- The text of a test is read as the same test.
def RoundTrips (insn : Insn) : Prop :=
  deserializeTest.Reads (serializeTest insn) insn

-- The words of the argument that are not part of the text are those that the compiler leaves there.
def ArgKind.Fits : ArgKind → Words → Prop
  | .full,   _ => True
  | .wide,   a => a = .of (a.word 0) (a.word 1) 0 0
  | .index,  a => a = .of (a.word 0) (a.word 1) 0 0
  | .mapped, a => a = .mapped (a.word 0)
  | .narrow, a => a = .ofNarrow (a.word 0)

def LabelFits (label : Nat) : Prop :=
  label = resultAccept ∨ label = resultReject ∨ label ≤ filterMaxLen

structure Canonical (insn : Insn) : Prop where
  field   : insn.field ≠ .other
  test    : insn.test ≠ .other
  success : LabelFits insn.success
  failure : LabelFits insn.failure
  arg     : insn.field.argKind.Fits insn.arg

theorem reads_label (h : LabelFits label) : deserializeLabel.Reads (serializeLabel label) label := by
  obtain rfl | rfl | h := h
  case inl => exact .bind (.next (a := some resultAccept) (by decide)) .pure
  case inr.inl => exact .bind (.next (a := some resultReject) (by decide)) .pure
  case inr.inr =>
    have ha : label ≠ resultAccept := by simp only [filterMaxLen, resultAccept] at h ⊢; omega
    have hr : label ≠ resultReject := by simp only [filterMaxLen, resultReject] at h ⊢; omega
    have hl : label < 2 ^ 10 := Nat.lt_of_le_of_lt h (by decide)
    have hn : (BitVec.ofNat 32 label).toNat = label := Nat.mod_eq_of_lt (by omega)
    rw [serializeLabel, if_neg ha, if_neg hr]
    refine .bind (.next (a := none) (by decide)) ?_
    exact .last (reads_number_ofNat hl (by decide) (by omega)) (.check ((hn.symm ▸ h)) (hn.symm ▸ .pure))

theorem reads_code {α : Type} {all : List α} {a : α} {n : Nat} (h : all[n]? = some a)
    (hl : all.length ≤ 2 ^ 10) :
    (deserializeCode all).Reads (serializeNumber (.ofNat 32 n)) a := by
  have hn := (List.getElem?_eq_some_iff.mp h).1
  have hv : (BitVec.ofNat 32 n).toNat = n := Nat.mod_eq_of_lt (by omega)
  refine .last (reads_number_ofNat (Nat.lt_of_lt_of_le hn hl) (by decide) (by omega)) ?_
  rw [hv, h]
  exact .pure

theorem Field.all_code {f : Field} (h : f ≠ .other) : all[f.code]? = some f := by
  cases f <;> first | exact absurd rfl h | decide

theorem Test.all_code {t : Test} (h : t ≠ .other) : all[t.code]? = some t := by
  cases t <;> first | exact absurd rfl h | decide

theorem reads_arg {a : Words} (h : kind.Fits a) :
    (deserializeArg kind).Reads (serializeArg kind a) a := by
  refine .bind (reads_word _) ?_
  cases kind
  case full =>
    rw [List.append_assoc]
    exact .bind (reads_word _) (.bind (reads_word _) (.last (reads_word _) (a.eq_of_words ▸ .pure)))
  case wide => exact .last (reads_word _) (h ▸ .pure)
  case index => exact .last (reads_word _) (by rw [BitVec.add_sub_cancel, ← h]; exact .pure)
  case mapped => exact h ▸ .pure
  case narrow => exact h ▸ .pure

theorem roundTrips_of_canonical (h : Canonical insn) : RoundTrips insn := by
  have hn : (deserializeNumber 1).Reads (serializeNumber (if insn.neg then 1 else 0))
      (if insn.neg then 1 else 0) :=
    reads_number (by split <;> decide) (by decide)
  simp only [RoundTrips, serializeTest, List.append_assoc]
  refine .bind reads_literal <| .bind (reads_code (Field.all_code h.field) (by decide)) <|
    .bind (reads_code (Test.all_code h.test) (by decide)) <| .bind hn <| .check ?_ <|
    .bind (reads_arg h.arg) <| .bind (reads_label h.success) <| .last (reads_label h.failure) ?_
  case _ => split <;> decide
  case _ =>
    have : decide ((if insn.neg then (1 : BitVec 32) else 0) = 1) = insn.neg := by cases insn.neg <;> decide
    rw [this]
    exact .pure

end Tests

section Objects

variable {object : List Insn} {length left i n : Nat} {w : Bytes}

theorem reads_literals : (w.forM literal : TextReader Unit).Reads w () := by
  induction w
  case nil => exact .pure
  case cons ih => exact .bind reads_literal ih

theorem prompt_literals (h : 0 ∉ w) : Prompt 0 (w.forM literal : TextReader Unit) := by
  induction w
  case nil => exact .pure
  case cons c w ih =>
    obtain ⟨hc, hw⟩ := List.ne_and_not_mem_of_not_mem_cons h
    exact .bind (prompt_literal (Ne.symm hc)) fun _ => ih hw

theorem prompt_header : Prompt 0 deserializeFilterHeader :=
  .bind (prompt_literals (by decide)) fun _ => .bind prompt_number fun _ => .bind .guard fun _ =>
  .bind prompt_number fun _ => .bind .guard fun _ => .pure

theorem prompt_tests : Prompt 0 (deserializeTests length left i) := by
  induction left generalizing i
  case zero => exact .pure
  case succ left ih => exact .bind prompt_test fun _ => .bind .guard fun _ => .bind ih fun _ => .pure

theorem reads_header (h₀ : 0 < n) (hn : n < 256) :
    deserializeFilterHeader.Reads
      (magic ++ serializeNumber 0 ++ serializeNumber (.ofNat 32 n)) n := by
  have hv : (BitVec.ofNat 32 n).toNat = n := Nat.mod_eq_of_lt (by omega)
  have hne : BitVec.ofNat 32 n ≠ 0 := by
    intro h
    have := congrArg BitVec.toNat h
    simp only [hv, BitVec.ofNat_eq_ofNat, BitVec.toNat_ofNat, Nat.reducePow, Nat.zero_mod] at this
    omega
  rw [List.append_assoc]
  refine .bind reads_literals <| .bind (reads_number (by decide) (by decide)) <|
    .check rfl <| .last (reads_number_ofNat (by omega) (by decide) (by omega)) <|
    .check ⟨hne, ?_⟩ (hv.symm ▸ .pure)
  rw [hv]
  exact hn.le

theorem labelOk_iff {label : Nat} : labelOk length i label ↔
    label = resultAccept ∨ label = resultReject ∨ (i < label ∧ label < length) := by
  simp [labelOk]

-- The tests from an index on.
theorem reads_tests (ho : Proper object) (hr : ∀ insn ∈ object, RoundTrips insn)
    (hi : i + left = object.length) :
    (deserializeTests object.length left i).Reads ((object.drop i).flatMap serializeTest)
      (object.drop i) := by
  induction left generalizing i
  case zero =>
    rw [List.drop_eq_nil_of_le (by omega)]
    exact .pure
  case succ left ih =>
    have hl : i < object.length := by omega
    have hf (b : Bool) := labelOk_iff.mpr (ho.forward (b := b) (List.getElem?_eq_getElem hl))
    rw [List.drop_eq_getElem_cons hl, List.flatMap_cons]
    refine .bind (hr _ (List.getElem_mem hl)) <| .check ⟨hf true, hf false⟩ ?_
    exact .last (ih (by omega)) .pure

-- Everything up to the terminating character.
def deserializeBody : TextReader (List Insn) := do
  let length ← deserializeFilterHeader
  deserializeTests length length 0

theorem deserializeFilter_eq : deserializeFilter =
    deserializeBody >>= fun object => literal 0 >>= fun _ => pure object := by
  simp only [deserializeFilter, deserializeBody, bind_assoc]

theorem prompt_body : Prompt 0 deserializeBody :=
  .bind prompt_header fun _ => prompt_tests

theorem reads_body (ho : Proper object) (hr : ∀ insn ∈ object, RoundTrips insn)
    (hl : object.length < 256) : deserializeBody.Reads (serializeFilter object) object := by
  have hs : serializeFilter object = magic ++ serializeNumber 0 ++
      serializeNumber (.ofNat 32 object.length) ++ (object.drop 0).flatMap serializeTest := by
    rw [serializeFilter, Nat.mod_eq_of_lt hl, List.take_length, List.drop_zero]
  rw [hs]
  exact .bind (reads_header ho.nonempty hl) (reads_tests ho hr (Nat.zero_add _))

theorem deserializeFilter_run (h : deserializeBody.Reads w object) :
    deserializeFilter.run (w ++ [0]) = some (object, []) := by
  have hr : deserializeFilter.Reads (w ++ [0]) object :=
    deserializeFilter_eq ▸ .bind h (.last reads_literal .pure)
  simpa using hr []

-- A text whose last character has been overwritten.
theorem deserializeFilter_cut {c : BitVec 8} (h : deserializeBody.Reads (w ++ [c]) object) :
    deserializeFilter.run (w ++ [0]) = none := by
  rw [deserializeFilter_eq, StateT.run_bind, prompt_body.cut h]
  rfl

-- The length of the longest filters is written as zero.
theorem deserializeFilter_empty {u : Bytes} :
    deserializeFilter.run (magic ++ serializeNumber 0 ++ serializeNumber 0 ++ u) = none := by
  have hv : (deserializeNumber 4).Reads (serializeNumber 0) 0 := reads_number (by decide) (by decide)
  have hn : (deserializeNumber 2).Reads (serializeNumber 0) 0 := reads_number (by decide) (by decide)
  simp only [deserializeFilter, deserializeFilterHeader, bind_assoc, List.append_assoc]
  rw [reads_literals.run_bind, hv.run_bind, StateT.run_bind, Reader.run_guard, if_pos rfl,
    Option.bind_eq_bind, Option.bind_some, hn.run_bind, StateT.run_bind, Reader.run_guard,
    if_neg fun h => h.1 rfl]
  rfl

end Objects

section Streams

variable {s : Stream} {buf w : Bytes} {f : Filter}

-- As long as there is room, the characters stand one behind the other.
theorem Stream.putString_eq {p : Bytes} {overflow : Bool} (h : w.length ≤ buf.length) :
    putString ⟨p ++ buf, p.length, overflow⟩ w =
      ⟨p ++ w ++ buf.drop w.length, (p ++ w).length, overflow⟩ := by
  induction w generalizing p buf
  case nil => simp [putString]
  case cons c w ih =>
    cases buf
    case nil => cases h
    case cons b buf =>
      have hc : putChar ⟨p ++ b :: buf, p.length, overflow⟩ c =
          ⟨(p ++ [c]) ++ buf, (p ++ [c]).length, overflow⟩ := by
        simp [putChar]
      have := ih (p := p ++ [c]) (Nat.le_of_succ_le_succ h)
      rw [putString, List.foldl_cons, hc, ← putString, this]
      simp

theorem Stream.overflow_putString (h : s.overflow) : (s.putString w).overflow := by
  induction w generalizing s
  case nil => exact h
  case cons c w ih =>
    refine ih ?_
    rw [putChar]
    split <;> first | rfl | exact h

theorem Stream.putString_overflow (h : s.data.length < s.pos + w.length)
    (hp : s.pos ≤ s.data.length) : (s.putString w).overflow := by
  induction w generalizing s
  case nil => simp only [List.length_nil] at h; omega
  case cons c w ih =>
    rw [putString, List.foldl_cons, ← putString, putChar]
    split
    case isTrue => exact overflow_putString rfl
    case isFalse =>
      refine ih ?_ ?_
      · simp only [List.length_set, List.length_cons] at h ⊢; omega
      · simp only [List.length_set]; omega

theorem putString_fresh (h : w.length ≤ buf.length) :
    Stream.putString ⟨buf, 0, false⟩ w = ⟨w ++ buf.drop w.length, w.length, false⟩ :=
  Stream.putString_eq (p := []) h

-- The three outcomes of writing a filter into a buffer.
theorem filterSerialize_of_lt (h : (serializeFilter f.object).length < buf.length) :
    ∃ rest, filterSerialize f buf =
      (serializeFilter f.object ++ 0 :: rest, some ((serializeFilter f.object).length + 1)) := by
  generalize hw : serializeFilter f.object = w at h
  obtain ⟨b, rest, hb⟩ := List.exists_cons_of_length_pos
    (show 0 < (buf.drop w.length).length by rw [List.length_drop]; omega)
  refine ⟨rest, ?_⟩
  rw [filterSerialize, hw, putString_fresh h.le, hb]
  simp [Stream.putNul, Stream.putChar]

theorem filterSerialize_of_eq {c : BitVec 8} (hw : serializeFilter f.object = w ++ [c])
    (h : (serializeFilter f.object).length = buf.length) :
    filterSerialize f buf = (w ++ [0], some buf.length) := by
  rw [hw] at h
  rw [filterSerialize, hw, putString_fresh h.le, h, List.drop_length, List.append_nil]
  rw [List.length_append, List.length_singleton] at h
  simp [Stream.putNul, ← h]

theorem filterSerialize_of_gt (h : buf.length < (serializeFilter f.object).length) :
    (filterSerialize f buf).2 = none := by
  have ho : (Stream.putString ⟨buf, 0, false⟩ (serializeFilter f.object)).overflow :=
    Stream.putString_overflow (by simpa using h) (Nat.zero_le _)
  have hn {s : Stream} (hs : s.overflow) : s.putNul.overflow := by
    rw [Stream.putNul, Stream.putChar]
    split_ifs <;> first | rfl | exact hs
  simp only [filterSerialize, hn ho, if_true]

end Streams

end Wd
