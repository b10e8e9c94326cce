import EbpfDivert.Primitives.Limbs
import EbpfDivert.Primitives.Prefix
import Mathlib.Tactic.IntervalCases

-- A 128-bit value the way the sources keep one (`UINT32 v[4]`): four words in host order, word 0 the
-- least significant.
structure Words where
  limbs : List (BitVec 32)
  length_eq : limbs.length = 4
deriving DecidableEq

namespace Words

variable {a b : Words}

def of (w₀ w₁ w₂ w₃ : BitVec 32) : Words :=
  ⟨[w₀, w₁, w₂, w₃], rfl⟩

def word (a : Words) (i : Nat) : BitVec 32 :=
  a.limbs.getD i 0

def value (a : Words) : Nat :=
  Limbs.value a.limbs

def zero : Words := .of 0 0 0 0

def ones : Words := .of 0xFFFFFFFF 0xFFFFFFFF 0xFFFFFFFF 0xFFFFFFFF

-- The value of a field that only has 32 bits.
def ofNarrow (w : BitVec 32) : Words :=
  .of w 0 0 0

-- The value of an IPv4 address field is `::ffff:a.b.c.d`.
def mapped (w : BitVec 32) : Words :=
  .of w 0x0000FFFF 0 0

def isMappedIpv4 (a : Words) : Bool :=
  a.word 3 == 0 && a.word 2 == 0 && a.word 1 == 0x0000FFFF

def cmp128 (a b : Words) : Ordering :=
  Limbs.cmp a.limbs b.limbs

def inc128 (a : Words) : Words :=
  ⟨Limbs.inc a.limbs, by simp [a.length_eq]⟩

def dec128 (a : Words) : Words :=
  ⟨Limbs.dec a.limbs, by simp [a.length_eq]⟩

-- Bit `i` counted from the top of the value, as a number that is 0 or 1.
def bit (a : Words) (i : Nat) : BitVec 32 :=
  a.word (3 - i / 32) >>> (31 - i % 32) &&& 1

def setBit (a : Words) (i : Nat) : Words :=
  ⟨a.limbs.modify (3 - i / 32) (· ||| (1#32 <<< (31 - i % 32))), by simp [a.length_eq]⟩

def clearBit (a : Words) (i : Nat) : Words :=
  ⟨a.limbs.modify (3 - i / 32) (· &&& ~~~(1#32 <<< (31 - i % 32))), by simp [a.length_eq]⟩

-- What is left of a value under a mask.
def masked (a mask : Words) : Words :=
  ⟨List.zipWith (· &&& ·) a.limbs mask.limbs, by simp [a.length_eq, mask.length_eq]⟩

def toNet16 (v : Words) : List (BitVec 8) :=
  [3, 2, 1, 0].flatMap fun i =>
    [24, 16, 8, 0].map fun s => (v.word i >>> s).setWidth 8

theorem value_lt (a : Words) : a.value < 2 ^ 128 := by
  have := Limbs.value_lt a.limbs
  rwa [a.length_eq] at this

theorem value_inj : a.value = b.value ↔ a = b := by
  refine ⟨fun h => ?_, congrArg value⟩
  cases a; cases b
  simp only [mk.injEq]
  exact Limbs.value_injective (by simp_all) h

theorem exists_value {n : Nat} (h : n < 2 ^ 128) : ∃ a : Words, a.value = n := by
  obtain ⟨limbs, hl, hv⟩ := Limbs.exists_value (show n < 2 ^ (32 * 4) from h)
  exact ⟨⟨limbs, hl⟩, hv⟩

-- The numeric order, which is the one that `cmp128` decides.
instance : PartialOrder Words :=
  .lift value fun _ _ => value_inj.mp

instance : DecidableLE Words :=
  fun a b => inferInstanceAs (Decidable (a.value ≤ b.value))

@[simp]
theorem word_of (w₀ w₁ w₂ w₃ : BitVec 32) :
    (of w₀ w₁ w₂ w₃).word 0 = w₀ ∧ (of w₀ w₁ w₂ w₃).word 1 = w₁ ∧
    (of w₀ w₁ w₂ w₃).word 2 = w₂ ∧ (of w₀ w₁ w₂ w₃).word 3 = w₃ :=
  ⟨rfl, rfl, rfl, rfl⟩

theorem eq_of_words (a : Words) : a = .of (a.word 0) (a.word 1) (a.word 2) (a.word 3) := by
  obtain ⟨limbs, h⟩ := a
  match limbs, h with
  | [_, _, _, _], _ => rfl

theorem value_of (w₀ w₁ w₂ w₃ : BitVec 32) : (of w₀ w₁ w₂ w₃).value =
    w₀.toNat + 2 ^ 32 * (w₁.toNat + 2 ^ 32 * (w₂.toNat + 2 ^ 32 * w₃.toNat)) := by
  simp [value, of]

theorem value_eq_words (a : Words) : a.value = (a.word 0).toNat +
    2 ^ 32 * ((a.word 1).toNat + 2 ^ 32 * ((a.word 2).toNat + 2 ^ 32 * (a.word 3).toNat)) := by
  conv_lhs => rw [eq_of_words a, value_of]

@[simp]
theorem value_zero : zero.value = 0 :=
  rfl

@[simp]
theorem value_ones : ones.value = 2 ^ 128 - 1 :=
  rfl

theorem value_mapped (w : BitVec 32) : (mapped w).value = 0xFFFF00000000 + w.toNat := by
  simp [mapped, value_of]
  omega

theorem isMappedIpv4_iff : a.isMappedIpv4 ↔ 0xFFFF00000000 ≤ a.value ∧ a.value ≤ 0xFFFFFFFFFFFF := by
  have h₀ := (a.word 0).isLt
  simp only [isMappedIpv4, Bool.and_eq_true, beq_iff_eq, ← BitVec.toNat_inj, value_eq_words a]
  simp
  omega

@[simp]
theorem isMappedIpv4_mapped {w : BitVec 32} : (mapped w).isMappedIpv4 := by
  have := w.isLt
  rw [isMappedIpv4_iff, value_mapped]
  omega

theorem eq_mapped (h : a.isMappedIpv4) : a = mapped (a.word 0) := by
  simp only [isMappedIpv4, Bool.and_eq_true, beq_iff_eq] at h
  conv_lhs => rw [eq_of_words a, h.1.1, h.1.2, h.2]
  rfl

theorem cmp128_eq_compare (a b : Words) : cmp128 a b = compare a.value b.value :=
  Limbs.cmp_eq_compare (by rw [a.length_eq, b.length_eq])

@[simp]
theorem cmp128_eq_lt : cmp128 a b = .lt ↔ a.value < b.value := by
  rw [cmp128_eq_compare, Nat.compare_eq_lt]

@[simp]
theorem cmp128_eq_gt : cmp128 a b = .gt ↔ b.value < a.value := by
  rw [cmp128_eq_compare, Nat.compare_eq_gt]

@[simp]
theorem cmp128_eq_eq : cmp128 a b = .eq ↔ a.value = b.value := by
  rw [cmp128_eq_compare, Nat.compare_eq_eq]

theorem value_inc128 (h : a.value < 2 ^ 128 - 1) : a.inc128.value = a.value + 1 :=
  Limbs.value_inc (by rw [a.length_eq]; change a.value + 1 < 2 ^ 128; omega)

theorem value_dec128 (h : 0 < a.value) : a.dec128.value = a.value - 1 :=
  Limbs.value_dec h

theorem testBit_value (a : Words) (i : Nat) :
    a.value.testBit i = (a.word (i / 32)).getLsbD (i % 32) :=
  Limbs.testBit_value (by decide)

theorem testBit_of_le {i : Nat} (h : 128 ≤ i) : a.value.testBit i = false :=
  Nat.testBit_lt_two_pow <| a.value_lt.trans_le <| Nat.pow_le_pow_right (by decide) h

theorem lt_of_testBit {i : Nat} (h : a.value.testBit i) : i < 128 := by
  by_contra hi
  simp [testBit_of_le (Nat.le_of_not_lt hi)] at h

theorem getLsbD_word {i k : Nat} (hi : i < 32) :
    (a.word k).getLsbD i = a.value.testBit (32 * k + i) := by
  rw [testBit_value, show (32 * k + i) / 32 = k by omega, show (32 * k + i) % 32 = i by omega]

theorem word_masked {mask : Words} (i : Nat) : (a.masked mask).word i = a.word i &&& mask.word i := by
  simp only [word, masked, List.getD_eq_getElem?_getD, List.getElem?_zipWith]
  cases a.limbs[i]? <;> cases mask.limbs[i]? <;> simp

theorem testBit_masked {mask : Words} {i : Nat} :
    (a.masked mask).value.testBit i = (a.value.testBit i && mask.value.testBit i) := by
  rw [testBit_value, word_masked, BitVec.getLsbD_and, ← testBit_value, ← testBit_value]

theorem masked_eq_iff {mask : Words} : a.masked mask = b.masked mask ↔
    ∀ i, mask.value.testBit i → a.value.testBit i = b.value.testBit i := by
  rw [← value_inj]
  constructor
  case mp =>
    intro h i hi
    have := congrArg (·.testBit i) h
    simpa [testBit_masked, hi] using this
  case mpr =>
    intro h
    refine Nat.eq_of_testBit_eq fun i => ?_
    rw [testBit_masked, testBit_masked]
    cases hi : mask.value.testBit i
    case false => simp
    case true  => rw [h i hi]

section Bits

variable {i j : Nat}

-- Position `i` from the top is position `127 - i` of the value.
theorem bit_position (hi : i < 128) : (127 - i) / 32 = 3 - i / 32 ∧ (127 - i) % 32 = 31 - i % 32 := by
  omega

theorem bit_eq_ite (hi : i < 128) : a.bit i = if a.value.testBit (127 - i) then 1 else 0 := by
  have ⟨hw, hb⟩ := bit_position hi
  rw [bit, testBit_value, hw, hb]
  have h := BitVec.and_one_eq_setWidth_ofBool_getLsbD (x := a.word (3 - i / 32) >>> (31 - i % 32))
  cases hx : (a.word (3 - i / 32)).getLsbD (31 - i % 32) <;> simp_all

theorem getLsbD_one_shiftLeft {l m : Nat} (hl : l < 32) :
    (1#32 <<< l).getLsbD m = decide (m = l) := by
  rw [BitVec.getLsbD_shiftLeft, BitVec.getLsbD_one]
  by_cases hm : m = l <;> simp [hm, hl]
  omega

-- Changing one bit of one word changes the bit of the value at the same place and no other.
theorem testBit_modify {f : BitVec 32 → BitVec 32} {g : Bool → Bool} {k l : Nat} {h}
    (hk : k < 4) (hl : l < 32)
    (hf : ∀ w m, (f w).getLsbD m = if m = l then g (w.getLsbD m) else w.getLsbD m) :
    (Words.mk (a.limbs.modify k f) h).value.testBit j =
    if j = 32 * k + l then g (a.value.testBit j) else a.value.testBit j := by
  have hg : a.limbs[k]? = some (a.word k) := by
    simp [word, a.length_eq, hk]
  simp only [testBit_value, word, List.getD_eq_getElem?_getD, List.getElem?_modify]
  by_cases hj : k = j / 32
  case neg => simp [hj, show j ≠ 32 * k + l by omega]
  case pos =>
    subst hj
    simp only [hg, ↓reduceIte, Option.map_eq_map, Option.map_some, Option.getD_some, hf]
    simp only [show j % 32 = l ↔ j = 32 * (j / 32) + l by omega]

theorem testBit_setBit (hi : i < 128) :
    (a.setBit i).value.testBit j = (a.value.testBit j || decide (j = 127 - i)) := by
  have hf : ∀ (w : BitVec 32) m, (w ||| 1#32 <<< (31 - i % 32)).getLsbD m =
      if m = 31 - i % 32 then true else w.getLsbD m := by
    intro w m
    rw [BitVec.getLsbD_or, getLsbD_one_shiftLeft (by omega)]
    by_cases hm : m = 31 - i % 32 <;> simp [hm]
  rw [setBit, testBit_modify (g := fun _ => true) (by omega) (by omega) hf]
  rw [show 32 * (3 - i / 32) + (31 - i % 32) = 127 - i by omega]
  by_cases hj : j = 127 - i <;> simp [hj]

theorem testBit_clearBit (hi : i < 128) :
    (a.clearBit i).value.testBit j = (a.value.testBit j && decide (j ≠ 127 - i)) := by
  have hf : ∀ (w : BitVec 32) m, (w &&& ~~~(1#32 <<< (31 - i % 32))).getLsbD m =
      if m = 31 - i % 32 then false else w.getLsbD m := by
    intro w m
    rw [BitVec.getLsbD_and, BitVec.getLsbD_not, getLsbD_one_shiftLeft (by omega)]
    by_cases hm : m = 31 - i % 32 <;> simp [hm]
    exact BitVec.lt_of_getLsbD
  rw [clearBit, testBit_modify (g := fun _ => false) (by omega) (by omega) hf]
  rw [show 32 * (3 - i / 32) + (31 - i % 32) = 127 - i by omega]
  by_cases hj : j = 127 - i <;> simp [hj]

-- Byte `k` in network order holds the bits from `8 * (15 - k)` upwards.
theorem getLsbD_toNet16 {k : Nat} (hk : k < 16) (hj : j < 8) :
    (a.toNet16.getD k 0).getLsbD j = a.value.testBit (8 * (15 - k) + j) := by
  have h : a.toNet16.getD k 0 = (a.word (3 - k / 4) >>> (24 - 8 * (k % 4))).setWidth 8 := by
    interval_cases k <;> rfl
  rw [h, testBit_value]
  simp [hj, show (8 * (15 - k) + j) / 32 = 3 - k / 4 by omega,
    show 24 - 8 * (k % 4) + j = (8 * (15 - k) + j) % 32 by omega]

end Bits

end Words
