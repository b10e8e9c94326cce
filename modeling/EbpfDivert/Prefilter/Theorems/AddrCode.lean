import EbpfDivert.Prefilter.Branch
import EbpfDivert.Prefilter.Theorems.Cover
import EbpfDivert.Prefilter.Theorems.RangeCode

open Prefix (Agree)
open Shared (IpVer)

namespace Prefilter

variable {bits j k : Nat} {lo hi v ip mask : Words} {w : BitVec 32}

theorem maskedEq6_iff : maskedEq6 v.toNet16 mask.toNet16 ip.toNet16 ↔
    ∀ k, mask.value.testBit k → v.value.testBit k = ip.value.testBit k := by
  simp only [maskedEq6, List.all_eq_true, List.mem_range, beq_iff_eq, Bytes.byte]
  constructor
  case mp =>
    intro h k hk
    have hlt := Words.lt_of_testBit hk
    have := congrArg (·.getLsbD (k % 8)) <| h (15 - k / 8) (by omega)
    simp only [BitVec.getLsbD_and, Words.getLsbD_toNet16 (show 15 - k / 8 < 16 by omega)
      (show k % 8 < 8 by omega), show 8 * (15 - (15 - k / 8)) + k % 8 = k by omega] at this
    simpa [hk] using this
  case mpr =>
    intro h j hj
    refine BitVec.eq_of_getLsbD_eq fun i hi => ?_
    have := h (8 * (15 - j) + i)
    simp only [BitVec.getLsbD_and, Words.getLsbD_toNet16 hj hi]
    grind

-- A rule with the mask and the base of a block accepts the values of the block.
theorem Block.accepts_iff (p : Block) :
    maskedEq6 v.toNet16 (mask128 p.bits).toNet16 p.base.toNet16 ↔ v ∈ p.values := by
  rw [maskedEq6_iff, ← Words.masked_eq_iff, p.masked]
  rfl

theorem maskedEq4_iff {m a : BitVec 32} :
    maskedEq4 w m a ↔ ∀ k < 32, m.getLsbD k → w.getLsbD k = a.getLsbD k := by
  rw [maskedEq4, beq_iff_eq, BitVec.eq_of_getLsbD_eq_iff]
  refine forall₂_congr fun i _ => ?_
  cases hm : m.getLsbD i <;> simp [hm]

variable {a : PfAddr}

-- The three ways in which an address range is encoded.
inductive Encoded (a : PfAddr) : AddrCode → Prop
  | all (hf : a.isFull) : Encoded a {}
  | hole {x : Words} (hx : a.excl = some x)
    (hr : a.lo.value = 0 ∧ a.hi.value = 2 ^ 128 - 1 ∨
      a.lo.value = lo4.value ∧ a.hi.value = hi4.value) : Encoded a (holeCode x)
  | cover : Encoded a (prefixCode a)

theorem encoded (a : PfAddr) : Encoded a (encodeAddr a) := by
  by_cases hf : a.isFull
  case pos =>
    rw [encodeAddr, if_pos hf]
    exact .all hf
  case neg =>
    rw [encodeAddr, if_neg hf]
    split
    case _ => exact .cover
    case _ x hx =>
      split_ifs with hr
      case pos => exact .hole hx (by simpa using hr)
      case neg => exact .cover

namespace AddrCode

-- What a rule with this address accepts, `ip` and `mask` being how its family stores the code.
def Selects {α : Type} (eq : α → α → α → Bool) (ip mask : AddrCode → α) (code : AddrCode) (v : α) :
    Prop :=
  code.active → (eq v (mask code) (ip code) ↔ code.invert = false)

def Selects6 (code : AddrCode) (v : Words) : Prop :=
  code.Selects maskedEq6 (·.ip.toNet16) (·.mask.toNet16) v.toNet16

def Selects4 (code : AddrCode) (w : BitVec 32) : Prop :=
  code.Selects maskedEq4 (·.ip.word 0) (·.mask4) w

end AddrCode

-- The number of bits below the common prefix of the two ends.
def PfAddr.tail (a : PfAddr) : Nat :=
  128 - (coverPrefix a.lo a.hi).bits

theorem selects6_prefixCode : (prefixCode a).Selects6 v ↔ Agree a.tail v.value a.lo.value := by
  have hm : maskedEq6 v.toNet16 (mask128 (coverPrefix a.lo a.hi).bits).toNet16
      (coverPrefix a.lo a.hi).base.toNet16 ↔ Agree a.tail v.value a.lo.value :=
    (coverBlock a.lo a.hi).accepts_iff.trans mem_coverBlock
  simp only [AddrCode.Selects6, AddrCode.Selects, prefixCode, hm, decide_eq_true_eq, iff_true]
  refine ⟨fun h => ?_, fun h _ => h⟩
  -- Without any common bit the rule does not look at the address, and every block is the same.
  by_cases h0 : 0 < (coverPrefix a.lo a.hi).bits
  case pos => exact h h0
  case neg =>
    rw [PfAddr.tail, Nat.eq_zero_of_not_pos h0, Agree, Nat.div_eq_of_lt v.value_lt,
      Nat.div_eq_of_lt a.lo.value_lt]

theorem selects6_holeCode : (holeCode ip).Selects6 v ↔ v.value ≠ ip.value := by
  have hm : maskedEq6 v.toNet16 (mask128 128).toNet16 ip.toNet16 ↔ v.value = ip.value := by
    rw [maskedEq6_iff]
    refine ⟨fun h => Nat.eq_of_testBit_eq fun k => ?_, fun h k _ => by rw [h]⟩
    by_cases hlt : k < 128
    case pos => exact h k (by simp [testBit_mask128 le_rfl, hlt])
    case neg => rw [Words.testBit_of_le (by omega), Words.testBit_of_le (by omega)]
  simp [AddrCode.Selects6, AddrCode.Selects, holeCode, hm]

-- The code of an exact prefix describes a block of addresses.
theorem prefixCode_exact (he : (prefixCode a).exact) : a.excl = none ∧
    a.lo.value % 2 ^ a.tail = 0 ∧ a.hi.value % 2 ^ a.tail = 2 ^ a.tail - 1 := by
  have ⟨he, hx⟩ : (coverPrefix a.lo a.hi).exact ∧ a.excl.isNone := by
    simpa [prefixCode] using he
  exact ⟨by simpa using hx, coverPrefix_exact_iff.mp he⟩

theorem PfAddr.mem_of_agree (he : (prefixCode a).exact) (h : Agree a.tail v.value a.lo.value) :
    a.Mem v := by
  have ⟨hx, hl, hh⟩ := prefixCode_exact he
  have ⟨h₁, h₂⟩ := (Prefix.agree_iff_mem_Icc (coverPrefix_agree _ _) hl hh).mp h
  exact ⟨h₁, h₂, by simp [hx]⟩

theorem PfAddr.Mem.agree (h : a.Mem v) : Agree a.tail v.value a.lo.value :=
  (coverPrefix_agree _ _).of_mem_Icc h.1 h.2.1

theorem PfAddr.isFull_iff : a.isFull ↔ a.excl = none ∧ a.lo.value = 0 ∧ a.hi.value = 2 ^ 128 - 1 := by
  simp [isFull]

-- The one range that is encoded as if it were everything but a point.
def PfAddr.Punctured4 (a : PfAddr) : Prop :=
  a.lo.value = lo4.value ∧ a.hi.value = hi4.value ∧ a.excl.isSome

theorem encodeAddr_covers6 (a : PfAddr) (v : Words) :
    Covers ((encodeAddr a).exact ∧ ¬a.Punctured4) (a.Mem v) ((encodeAddr a).Selects6 v) := by
  have h := encoded a
  generalize encodeAddr a = code at h
  cases h
  case all hf =>
    obtain ⟨hx, hl, hh⟩ := PfAddr.isFull_iff.mp hf
    have hlt := v.value_lt
    exact .of_iff (by simp [AddrCode.Selects6, AddrCode.Selects, PfAddr.Mem, hx, hl, hh]; omega)
  case hole x hx hr =>
    rw [selects6_holeCode]
    refine ⟨fun hm => hm.2.2 x hx, fun hp hv => ?_⟩
    obtain ⟨hl, hh⟩ := hr.resolve_right fun hr => hp.2 ⟨hr.1, hr.2, by simp [hx]⟩
    have hlt := v.value_lt
    simp [PfAddr.Mem, hx, hl, hh, hv]
    omega
  case cover =>
    rw [selects6_prefixCode]
    exact ⟨PfAddr.Mem.agree, fun he => PfAddr.mem_of_agree he.1⟩

section V4

variable {w : BitVec 32}

theorem mask128_word_one (hb : bits ≤ 128) :
    (mask128 bits).word 1 = 0xFFFFFFFF ↔ 128 - bits ≤ 32 := by
  have hw {k : Nat} (hk : k < 32) : ((mask128 bits).word 1).getLsbD k = decide (128 - bits ≤ 32 + k) := by
    rw [Words.getLsbD_word hk, testBit_mask128 hb]
    exact decide_eq_decide.mpr (by omega)
  rw [show (0xFFFFFFFF : BitVec 32) = BitVec.allOnes 32 by rfl, BitVec.eq_of_getLsbD_eq_iff]
  refine ⟨fun h => ?_, fun h k hk => ?_⟩
  case refine_1 =>
    have := h 0 (by decide)
    rw [hw (by decide), BitVec.getLsbD_allOnes] at this
    simpa using this
  case refine_2 =>
    rw [hw hk, BitVec.getLsbD_allOnes]
    exact decide_eq_decide.mpr (by omega)

-- An IPv4 rule sees the lowest word of a prefix if the prefix reaches into it.
theorem selects4_prefixCode : (prefixCode a).Selects4 w ↔
    (a.tail ≤ 32 → ∀ k < 32, a.tail ≤ k → w.getLsbD k = a.lo.value.testBit k) := by
  have hb := (coverPrefix_bits a.lo a.hi).le
  have hm := mask128_word_one hb
  by_cases ht : a.tail ≤ 32
  case neg =>
    have hm4 : (prefixCode a).mask4 = 0 := if_neg (mt hm.mp ht)
    simp [AddrCode.Selects4, AddrCode.Selects, hm4, maskedEq4, ht]
    simp [prefixCode]
  case pos =>
    have hm4 : (prefixCode a).mask4 = (mask128 (coverPrefix a.lo a.hi).bits).word 0 :=
      if_pos (hm.mpr ht)
    have hact : (prefixCode a).active := by
      simp only [prefixCode, decide_eq_true_eq]
      rw [PfAddr.tail] at ht
      omega
    simp only [AddrCode.Selects4, AddrCode.Selects, hm4, hact, maskedEq4_iff, ht, true_imp_iff]
    simp only [prefixCode, iff_true]
    refine forall₂_congr fun k hk => ?_
    rw [Words.getLsbD_word hk, testBit_mask128 hb, Words.getLsbD_word hk, Nat.mul_zero, Nat.zero_add,
      decide_eq_true_eq, and_iff_left (show k < 128 by omega)]
    exact imp_congr_right fun hk => by
      rw [testBit_coverPrefix_base, decide_eq_true hk, Bool.and_true]

theorem selects4_holeCode : (holeCode ip).Selects4 w ↔ w ≠ ip.word 0 := by
  have hm4 : (holeCode ip).mask4 = BitVec.allOnes 32 := by
    rw [AddrCode.mask4, holeCode, mask128_full]
    rfl
  simp only [AddrCode.Selects4, AddrCode.Selects, hm4, maskedEq4, BitVec.and_allOnes, beq_iff_eq]
  simp [holeCode]

-- The addresses that agree above the lowest word are only told apart by it.
theorem agree_of_selects4 {u : Words} (hs : (prefixCode a).Selects4 (u.word 0))
    (hu : ∀ k, 32 ≤ k → a.tail ≤ k → u.value.testBit k = a.lo.value.testBit k) :
    Agree a.tail u.value a.lo.value := by
  refine Prefix.agree_iff_testBit.mpr fun k hk => ?_
  by_cases hlt : k < 32
  case neg => exact hu k (Nat.le_of_not_lt hlt) hk
  case pos =>
    rw [← selects4_prefixCode.mp hs (by omega) k hlt hk, Words.getLsbD_word hlt]
    simp

theorem testBit_of_high {u u' : Words} (h : ∀ i, 0 < i → u.word i = u'.word i) {k : Nat} (hk : 32 ≤ k) :
    u.value.testBit k = u'.value.testBit k := by
  rw [Words.testBit_value, Words.testBit_value, h _ (by omega)]

-- An IPv4 rule accepts the addresses of a range, apart from those whose lowest word is that of an
-- excluded address which is not mapped.
theorem encodeAddr_selects4 (hx : ∀ x ∈ a.excl, x.isMappedIpv4 ∨ x.word 0 ≠ w)
    (hm : a.Mem (.mapped w)) : (encodeAddr a).Selects4 w := by
  have henc := encoded a
  generalize encodeAddr a = code at henc
  cases henc
  case all => simp [AddrCode.Selects4, AddrCode.Selects]
  case hole x hx' _ =>
    rw [selects4_holeCode]
    rintro rfl
    rcases hx x hx' with hmx | hne
    case inl => exact hm.2.2 x hx' (by rw [← Words.eq_mapped hmx])
    case inr => exact hne rfl
  case cover =>
    refine selects4_prefixCode.mpr fun _ k hk ht => ?_
    have := Prefix.agree_iff_testBit.mp hm.agree k ht
    rw [← this, show k = 32 * 0 + k by omega, ← Words.getLsbD_word hk]
    simp [Words.mapped]

end V4

-- The sets of addresses that the rules of a family mistake another address for: an IPv4 rule only
-- keeps the lowest words, and an IPv6 rule takes the mapped addresses without a point for all
-- addresses without it.
def Mistaken (ver : IpVer) (s : Set Words) (v : Words) : Prop :=
  match ver with
  | .v4 => (∀ u ∈ s, ¬u.isMappedIpv4) ∧ ∃ u ∈ s, u.word 0 = v.word 0
  | .v6 => ¬v.isMappedIpv4 ∧ ∃ x, s = {u | u.isMappedIpv4 ∧ u ≠ x} ∧ v ≠ x

theorem Mistaken.nonempty {ver : IpVer} {s : Set Words} (h : Mistaken ver s v) : ∃ u, u ∈ s := by
  cases ver
  case v4 =>
    obtain ⟨_, u, hu, _⟩ := h
    exact ⟨u, hu⟩
  case v6 =>
    obtain ⟨_, x, rfl, _⟩ := h
    by_cases hx : Words.mapped 0 = x
    case neg => exact ⟨.mapped 0, Words.isMappedIpv4_mapped, hx⟩
    case pos => exact ⟨.mapped 1, Words.isMappedIpv4_mapped, hx ▸ by decide⟩

theorem mem_of_selects4 (he : (encodeAddr a).exact) (hs : (encodeAddr a).Selects4 w) :
    a.Mem (.mapped w) ∨ Mistaken .v4 {u | a.Mem u} (.mapped w) := by
  have hw := w.isLt
  have hv := Words.value_mapped w
  have henc := encoded a
  generalize encodeAddr a = code at henc he hs
  cases henc
  case all hf =>
    have ⟨hx, hl, hh⟩ := PfAddr.isFull_iff.mp hf
    exact .inl ⟨by omega, by omega, by simp [hx]⟩
  case hole x hx hr =>
    rw [selects4_holeCode] at hs
    rw [value_lo4, value_hi4] at hr
    refine .inl ⟨by omega, by omega, fun y hy heq => hs ?_⟩
    obtain rfl := Option.some.inj (hx.symm.trans hy)
    rw [← Words.value_inj.mp heq]
    rfl
  case cover =>
    by_cases hm : a.Mem (.mapped w)
    case pos => exact .inl hm
    case neg =>
      refine .inr ⟨fun u hu hmu => hm ?_, ?_⟩
      case refine_1 =>
        -- All mapped addresses are in the block, or `w` would not be selected.
        refine PfAddr.mem_of_agree he <| agree_of_selects4 hs fun k hk ht => ?_
        rw [← Prefix.agree_iff_testBit.mp hu.agree k ht]
        refine testBit_of_high (fun i hi => ?_) hk
        rw [Words.eq_mapped hmu]
        match i, hi with
        | 1, _ | 2, _ | 3, _ | _ + 4, _ => rfl
      case refine_2 =>
        let u := Words.of w (a.lo.word 1) (a.lo.word 2) (a.lo.word 3)
        refine ⟨u, PfAddr.mem_of_agree he <| agree_of_selects4 hs fun k hk _ => ?_, rfl⟩
        refine testBit_of_high (fun i hi => ?_) hk
        conv_rhs => rw [Words.eq_of_words a.lo]
        match i, hi with
        | 1, _ | 2, _ | 3, _ | _ + 4, _ => rfl

theorem mem_of_selects6 (he : (encodeAddr a).exact) (hs : (encodeAddr a).Selects6 v) :
    a.Mem v ∨ a.Punctured4 ∧ Mistaken .v6 {u | a.Mem u} v := by
  by_cases hp : a.Punctured4
  case neg => exact .inl <| (encodeAddr_covers6 a v).exact ⟨he, hp⟩ hs
  case pos =>
    obtain ⟨hl, hh, hx⟩ := id hp
    obtain ⟨x, hx⟩ := Option.isSome_iff_exists.mp hx
    have mem (u : Words) : a.Mem u ↔ u.isMappedIpv4 ∧ u ≠ x := by
      simp only [PfAddr.Mem, hl, hh, hx, Words.isMappedIpv4_iff, value_lo4, value_hi4, Option.mem_def,
        Option.some.injEq, forall_eq', and_assoc]
      rw [Ne, Ne, Words.value_inj]
    have hc : encodeAddr a = holeCode x := by
      rw [encodeAddr, if_neg (by simp [PfAddr.isFull, hx]), hx]
      simp [hl, hh]
    rw [hc, selects6_holeCode] at hs
    have hne : v ≠ x := fun h => hs (congrArg Words.value h)
    by_cases hm : v.isMappedIpv4
    case pos => exact .inl ((mem v).mpr ⟨hm, hne⟩)
    case neg => exact .inr ⟨hp, hm, x, Set.ext mem, hne⟩

end Prefilter
