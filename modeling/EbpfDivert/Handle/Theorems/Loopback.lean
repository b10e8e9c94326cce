import EbpfDivert.Handle.Events
import EbpfDivert.Kernel.Events

open Kernel (isLoopback)

-- Which addresses the library and the event programs take for loopback.
namespace Handle

variable {a : Bytes}

-- `::1` or in `::ffff:127.0.0.0/104`.
def Loopback (a : Bytes) : Prop :=
  (wordsFromNet a).value = 1 ∨ (wordsFromNet a).value / 2 ^ 24 = 0xFFFF7F

-- The addresses that look like `::ffff:127.0.0.0/104` except in the bytes that `addr_is_loopback`
-- does not look at.
def Stray (a : Bytes) : Prop :=
  a.byte 0 = 0 ∧ a.byte 8 = 0 ∧ a.byte 9 = 0 ∧ a.byte 10 = 0xFF ∧ a.byte 11 = 0xFF ∧ a.byte 12 = 127 ∧
    a.be64 0 ≠ 0

theorem value_wordsFromNet :
    (wordsFromNet a).value = (a.be64 0).toNat * 2 ^ 64 + (a.be64 8).toNat := by
  simp only [wordsFromNet, Words.value_of, Bytes.toNat_be64, Nat.reduceAdd]
  omega

-- The lower half by its bytes.
theorem toNat_low : ∃ rest < 2 ^ 24, (a.be64 8).toNat = (a.byte 8).toNat * 2 ^ 56 +
    (a.byte 9).toNat * 2 ^ 48 + (a.byte 10).toNat * 2 ^ 40 + (a.byte 11).toNat * 2 ^ 32 +
    (a.byte 12).toNat * 2 ^ 24 + rest := by
  have h₁ := (a.byte 13).isLt
  have h₂ := (a.be16 14).isLt
  refine ⟨(a.byte 13).toNat * 2 ^ 16 + (a.be16 14).toNat, by omega, ?_⟩
  simp only [Bytes.toNat_be64, Bytes.toNat_be32, Bytes.toNat_be16, Nat.reduceAdd]
  omega

theorem isLoopback_iff : isLoopback a ↔ Loopback a := by
  obtain ⟨rest, hr, hl⟩ := toNat_low (a := a)
  have h₁ := (a.be64 8).isLt
  have h (i : Nat) := (a.byte i).isLt
  have h₈ := h 8; have h₉ := h 9; have h₁₀ := h 10; have h₁₁ := h 11; have h₁₂ := h 12
  simp only [isLoopback, Loopback, value_wordsFromNet, ← BitVec.toNat_inj]
  split_ifs with hc
  all_goals
    simp only [BitVec.ofNat_eq_ofNat, BitVec.toNat_ofNat, Nat.reducePow, Nat.reduceMod,
      decide_eq_true_eq] at hc ⊢
    omega

theorem byte_of_be64 (h : a.be64 0 = 0) : a.byte 0 = 0 := by
  have hn := congrArg BitVec.toNat h
  refine BitVec.eq_of_toNat_eq ?_
  simp only [Bytes.toNat_be64, Bytes.toNat_be32, Bytes.toNat_be16, BitVec.ofNat_eq_ofNat,
    BitVec.toNat_ofNat, Nat.reducePow, Nat.reduceMod] at hn ⊢
  omega

-- `memcmp` with `::1`.
theorem bytes_eq_iff : (List.range 16).map a.byte = .replicate 15 0 ++ [1] ↔
    a.be64 0 = 0 ∧ a.be64 8 = 1 := by
  have h (i : Nat) := (a.byte i).isLt
  have h₁ := h 1; have h₂ := h 2; have h₃ := h 3; have h₄ := h 4; have h₅ := h 5; have h₆ := h 6
  have h₇ := h 7; have h₉ := h 9; have h₁₀ := h 10; have h₁₁ := h 11; have h₁₂ := h 12
  have h₁₃ := h 13; have h₁₄ := h 14; have h₁₅ := h 15
  simp only [List.range_succ, List.range_zero, List.nil_append, List.map_cons, List.map_nil,
    List.cons_append, List.replicate_succ, List.replicate_zero, List.cons.injEq,
    and_true, ← BitVec.toNat_inj, Bytes.toNat_be64, Bytes.toNat_be32, Bytes.toNat_be16,
    Nat.reduceAdd, BitVec.ofNat_eq_ofNat, BitVec.toNat_ofNat, Nat.reducePow, Nat.reduceMod]
  omega

theorem addrIsLoopback_iff : addrIsLoopback a ↔ isLoopback a ∨ Stray a := by
  simp only [addrIsLoopback, isLoopback, bytes_eq_iff]
  by_cases hm : a.byte 8 = 0 ∧ a.byte 9 = 0 ∧ a.byte 10 = 0xFF ∧ a.byte 11 = 0xFF
  case pos =>
    obtain ⟨h₈, h₉, h₁₀, h₁₁⟩ := hm
    by_cases hz : a.be64 0 = 0#64
    case pos => simp [Stray, h₈, h₉, h₁₀, h₁₁, hz, byte_of_be64 hz]
    -- Only the library looks further if the upper half is not zero.
    case neg => by_cases h₀ : a.byte 0 = 0 <;> simp [Stray, h₈, h₉, h₁₀, h₁₁, hz, h₀]
  case neg =>
    have hs : ¬Stray a := fun hs => hm ⟨hs.2.1, hs.2.2.1, hs.2.2.2.1, hs.2.2.2.2.1⟩
    rw [if_neg fun h => hm ⟨h.2.2.2.1, h.2.2.2.2, h.1, h.2.1⟩, if_neg fun h => hm h.2,
      or_iff_left hs]

theorem loopback_agree_iff :
    (isLoopback a ↔ Loopback a) ∧ ((addrIsLoopback a ↔ isLoopback a) ↔ ¬Stray a) := by
  refine ⟨isLoopback_iff, ?_⟩
  have hs : Stray a → ¬isLoopback a := by
    rintro ⟨_, _, _, _, _, _, hn⟩
    simp only [isLoopback, hn, false_and, if_false, decide_false, Bool.false_eq_true, not_false_eq_true]
  rw [addrIsLoopback_iff]
  tauto

-- The address `1::ffff:127.0.0.1`.
theorem loopback_disagree :
    addrIsLoopback [0, 1, 0, 0, 0, 0, 0, 0, 0, 0, 0xFF, 0xFF, 127, 0, 0, 1] ∧
    ¬isLoopback [0, 1, 0, 0, 0, 0, 0, 0, 0, 0, 0xFF, 0xFF, 127, 0, 0, 1] := by
  decide

end Handle
