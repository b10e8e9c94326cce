import EbpfDivert.Primitives.Prefix
import EbpfDivert.Prefilter.Encode
import Mathlib.Order.Bounds.Defs
import Mathlib.Order.Interval.Set.Defs

open Words (testBit_setBit testBit_clearBit bit_eq_ite)
open Prefix (Agree)

namespace Prefilter

variable {bits j : Nat} {lo hi v : Words}

theorem testBit_mask128 (hb : bits ≤ 128) :
    (mask128 bits).value.testBit j = decide (128 - bits ≤ j ∧ j < 128) := by
  induction bits
  case zero => simp [mask128]
  case succ bits ih =>
    have h : mask128 (bits + 1) = (mask128 bits).setBit bits := by
      simp [mask128, List.range_succ]
    rw [h, testBit_setBit (by omega), ih (by omega), ← Bool.decide_or]
    exact decide_eq_decide.mpr (by omega)

theorem mask128_full : mask128 128 = .ones := by
  refine Words.value_inj.mp <| Nat.eq_of_testBit_eq fun k => ?_
  rw [testBit_mask128 le_rfl, Words.value_ones, Nat.testBit_two_pow_sub_one]
  exact decide_eq_decide.mpr (by omega)

-- Two values are the same under the mask if they have the same prefix.
theorem masked_mask128_eq_iff {a b : Words} (hb : bits ≤ 128) :
    a.masked (mask128 bits) = b.masked (mask128 bits) ↔ Agree (128 - bits) a.value b.value := by
  rw [Words.masked_eq_iff, Prefix.agree_iff_testBit]
  refine forall_congr' fun k => ?_
  rw [testBit_mask128 hb, decide_eq_true_eq]
  by_cases hk : k < 128
  case pos => rw [and_iff_left hk]
  case neg => simp [Words.testBit_of_le (Nat.le_of_not_lt hk)]

theorem testBit_foldl_clearBit {n : Nat} (hb : bits + n ≤ 128) :
    ((List.range' bits n).foldl .clearBit lo).value.testBit j =
      (lo.value.testBit j && decide ¬(128 ≤ j + bits + n ∧ j + bits < 128)) := by
  induction n
  case zero =>
    have h : ¬(128 ≤ j + bits + 0 ∧ j + bits < 128) := by omega
    simp only [List.range'_zero, List.foldl_nil, h, not_false_eq_true, decide_true, Bool.and_true]
  case succ n ih =>
    rw [List.range'_1_concat, List.foldl_append, List.foldl_cons, List.foldl_nil,
      testBit_clearBit (by omega), ih (by omega), Bool.and_assoc, ← Bool.decide_and]
    congr 1
    exact decide_eq_decide.mpr (by omega)

theorem bit_eq_iff (hj : j < 128) : lo.bit j = hi.bit j ↔
    lo.value.testBit (127 - j) = hi.value.testBit (127 - j) := by
  rw [bit_eq_ite hj, bit_eq_ite hj]
  cases lo.value.testBit (127 - j) <;> cases hi.value.testBit (127 - j) <;> simp

-- Where the scan from the top stops.
structure FirstDifference (lo hi : Words) (bits : Nat) : Prop where
  le     : bits ≤ 128
  before : ∀ i < bits, lo.bit i = hi.bit i
  stop   : bits < 128 → lo.bit bits ≠ hi.bit bits

theorem coverPrefix_bits (lo hi : Words) : FirstDifference lo hi (coverPrefix lo hi).bits := by
  simp only [coverPrefix]
  cases hf : (List.range 128).find? fun i => decide (lo.bit i ≠ hi.bit i)
  case none =>
    rw [List.find?_range_eq_none] at hf
    exact ⟨le_rfl, fun i hi => by simpa using hf i hi, fun h => absurd h (by simp)⟩
  case some b =>
    rw [List.find?_range_eq_some] at hf
    have ⟨hs, hb, hn⟩ := hf
    exact ⟨(List.mem_range.mp hb).le, fun i hi => by simpa using hn i hi, fun _ => by simpa using hs⟩

-- The scan finds the longest prefix that the two values share.
theorem FirstDifference.agree_iff {n : Nat} (h : FirstDifference lo hi bits) (hn : n ≤ 128) :
    Agree (128 - n) lo.value hi.value ↔ n ≤ bits := by
  rw [Prefix.agree_iff_testBit]
  constructor
  case mp =>
    intro ha
    by_contra hlt
    exact h.stop (by omega) ((bit_eq_iff (by omega)).mpr (ha _ (by omega)))
  case mpr =>
    intro hle i hi'
    by_cases hlt : i < 128
    case pos =>
      have := (bit_eq_iff (by omega)).mp <| h.before (127 - i) (by omega)
      rwa [show 127 - (127 - i) = i by omega] at this
    case neg => rw [Words.testBit_of_le (by omega), Words.testBit_of_le (by omega)]

theorem coverPrefix_agree (lo hi : Words) :
    Agree (128 - (coverPrefix lo hi).bits) lo.value hi.value :=
  have h := coverPrefix_bits lo hi
  (h.agree_iff h.le).mpr le_rfl

theorem testBit_coverPrefix_base : (coverPrefix lo hi).base.value.testBit j =
    (lo.value.testBit j && decide (128 - (coverPrefix lo hi).bits ≤ j)) := by
  have hb := (coverPrefix_bits lo hi).le
  have h : (coverPrefix lo hi).base =
    (List.range' (coverPrefix lo hi).bits (128 - (coverPrefix lo hi).bits)).foldl .clearBit lo := rfl
  rw [h, testBit_foldl_clearBit (by omega)]
  congr 1
  exact decide_eq_decide.mpr (by omega)

theorem agree_coverPrefix_base :
    Agree (128 - (coverPrefix lo hi).bits) (coverPrefix lo hi).base.value lo.value :=
  Prefix.agree_iff_testBit.mpr fun i hi => by
    rw [testBit_coverPrefix_base, decide_eq_true hi, Bool.and_true]

-- The prefix is exact if the interval starts at its first and ends at its last value.
theorem coverPrefix_exact_iff : (coverPrefix lo hi).exact ↔
    lo.value % 2 ^ (128 - (coverPrefix lo hi).bits) = 0 ∧
    hi.value % 2 ^ (128 - (coverPrefix lo hi).bits) = 2 ^ (128 - (coverPrefix lo hi).bits) - 1 := by
  have hb := (coverPrefix_bits lo hi).le
  have he : (coverPrefix lo hi).exact ↔
      ∀ i, (coverPrefix lo hi).bits ≤ i → i < 128 → lo.bit i = 0 ∧ hi.bit i = 1 := by
    have hr (i) : i ∈ List.range' (coverPrefix lo hi).bits (128 - (coverPrefix lo hi).bits) ↔
        (coverPrefix lo hi).bits ≤ i ∧ i < 128 := by
      rw [List.mem_range'_1, Nat.add_sub_cancel' hb]
    exact List.all_eq_true.trans <| forall_congr' fun i =>
      (imp_congr (hr i) decide_eq_true_iff).trans and_imp
  have hbit {i : Nat} (hi' : i < 128) : lo.bit i = 0 ∧ hi.bit i = 1 ↔
      lo.value.testBit (127 - i) = false ∧ hi.value.testBit (127 - i) = true := by
    rw [bit_eq_ite hi', bit_eq_ite hi']
    cases lo.value.testBit (127 - i) <;> cases hi.value.testBit (127 - i) <;> simp
  rw [he, Prefix.mod_two_pow_eq_zero_iff_testBit, Prefix.mod_two_pow_eq_max_iff_testBit,
    ← forall₂_and]
  constructor
  case mp =>
    intro h i hi'
    have := (hbit (by omega)).mp <| h (127 - i) (by omega) (by omega)
    rwa [show 127 - (127 - i) = i by omega] at this
  case mpr => exact fun h i _ hi' => (hbit hi').mpr <| h (127 - i) (by omega)

-- A block of addresses as a rule describes it: a mask for the first `bits` bits and the value that
-- they have, without any bit below.
structure Block where
  bits   : Nat
  base   : Words
  le     : bits ≤ 128
  masked : base.masked (mask128 bits) = base

namespace Block

def values (p : Block) : Set Words :=
  { v | v.masked (mask128 p.bits) = p.base }

theorem mem_values {p : Block} : v ∈ p.values ↔ Agree (128 - p.bits) v.value p.base.value := by
  rw [← masked_mask128_eq_iff p.le, p.masked]
  rfl

end Block

-- What `coverPrefix` returns is a block.
def coverBlock (lo hi : Words) : Block where
  bits   := (coverPrefix lo hi).bits
  base   := (coverPrefix lo hi).base
  le     := (coverPrefix_bits lo hi).le
  masked := by
    refine Words.value_inj.mp <| Nat.eq_of_testBit_eq fun i => ?_
    rw [Words.testBit_masked, testBit_mask128 (coverPrefix_bits lo hi).le, testBit_coverPrefix_base]
    cases hb : lo.value.testBit i
    case false => rfl
    case true  => simp [Words.lt_of_testBit hb]

theorem mem_coverBlock : v ∈ (coverBlock lo hi).values ↔
    Agree (128 - (coverPrefix lo hi).bits) v.value lo.value :=
  Block.mem_values.trans agree_coverPrefix_base.congr_right

-- The interval lies in a block if its ends do.
theorem Icc_subset_values_iff {p : Block} (h : lo ≤ hi) :
    Set.Icc lo hi ⊆ p.values ↔ lo ∈ p.values ∧ hi ∈ p.values := by
  refine ⟨fun hs => ⟨hs ⟨le_rfl, h⟩, hs ⟨h, le_rfl⟩⟩, fun ⟨hl, hh⟩ v hv => ?_⟩
  rw [Block.mem_values] at hl hh ⊢
  exact ((hl.trans hh.symm).of_mem_Icc hv.1 hv.2).trans hl

-- A block reaches both ends only if its prefix is not longer than the one they share.
theorem Block.bits_le_coverPrefix {p : Block} (hl : lo ∈ p.values) (hh : hi ∈ p.values) :
    p.bits ≤ (coverPrefix lo hi).bits := by
  rw [mem_values] at hl hh
  exact ((coverPrefix_bits lo hi).agree_iff p.le).mp (hl.trans hh.symm)

theorem Icc_eq_coverBlock_iff :
    Set.Icc lo hi = (coverBlock lo hi).values ↔ (coverPrefix lo hi).exact := by
  rw [coverPrefix_exact_iff, ← Prefix.agree_iff_mem_Icc_iff (coverPrefix_agree lo hi)
    (Nat.sub_le 128 _) lo.value_lt, Set.ext_iff]
  constructor
  case mp =>
    intro hs n hn
    obtain ⟨v, rfl⟩ := Words.exists_value hn
    exact mem_coverBlock.symm.trans (hs v).symm
  case mpr => exact fun hs v => (mem_coverBlock.trans (hs v.value v.value_lt)).symm

theorem coverPrefix_tightest (h : lo ≤ hi) :
    Set.Icc lo hi ⊆ (coverBlock lo hi).values ∧
    IsGreatest { n | ∃ p : Block, p.bits = n ∧ Set.Icc lo hi ⊆ p.values } (coverPrefix lo hi).bits ∧
    ((coverPrefix lo hi).exact ↔ Set.Icc lo hi = (coverBlock lo hi).values) := by
  have hs : Set.Icc lo hi ⊆ (coverBlock lo hi).values :=
    (Icc_subset_values_iff h).mpr
      ⟨mem_coverBlock.mpr rfl, mem_coverBlock.mpr (coverPrefix_agree lo hi).symm⟩
  refine ⟨hs, ⟨⟨coverBlock lo hi, rfl, hs⟩, ?_⟩, Icc_eq_coverBlock_iff.symm⟩
  rintro n ⟨p, rfl, hp⟩
  have ⟨hl, hh⟩ := (Icc_subset_values_iff h).mp hp
  exact Block.bits_le_coverPrefix hl hh

-- The IPv4 addresses from 10.0.0.0 to 10.0.0.255.
theorem coverPrefix_tightest_mapped :
    IsGreatest { n | ∃ p : Block, p.bits = n ∧
      Set.Icc (.mapped 0x0A000000) (.mapped 0x0A0000FF) ⊆ p.values } 120 ∧
    Set.Icc (.mapped 0x0A000000) (.mapped 0x0A0000FF) =
      (coverBlock (.mapped 0x0A000000) (.mapped 0x0A0000FF)).values := by
  have hl : Words.mapped 0x0A000000 ≤ .mapped 0x0A0000FF := by decide +kernel
  have hb : (coverPrefix (.mapped 0x0A000000) (.mapped 0x0A0000FF)).bits = 120 := by decide +kernel
  have ⟨_, hg, he⟩ := coverPrefix_tightest hl
  exact ⟨hb ▸ hg, he.mp (by decide +kernel)⟩

end Prefilter
