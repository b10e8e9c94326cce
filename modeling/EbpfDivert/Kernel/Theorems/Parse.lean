import EbpfDivert.Kernel.Parse
import Mathlib.Tactic.SplitIfs
import Mathlib.Tactic.Tauto

open Shared

namespace Kernel

variable {data frame : Bytes} {off l2Len n : Nat} {pkt : ParsedPacket} {s : ExtState}

-- The headers that the parser accepts at an offset.
def LooksIp (data : Bytes) (off : Nat) : Prop :=
  (data.byte off >>> 4 = 4 ∧ off + 20 ≤ data.length ∧ 5 ≤ (data.byte off &&& 0x0F).toNat) ∨
  (data.byte off >>> 4 = 6 ∧ off + 40 ≤ data.length ∧
    (skipExtHeaders data maxExtHeaders ⟨data.byte (off + 6), off + 40, false⟩).isSome)

instance : Decidable (LooksIp data off) :=
  inferInstanceAs (Decidable (_ ∨ _))

theorem parseIpv4_isSome : (parseIpv4 data l2Len).isSome ↔
    l2Len + 20 ≤ data.length ∧ 5 ≤ (data.byte l2Len &&& 0x0F).toNat := by
  simp only [parseIpv4]
  by_cases hl : data.length < l2Len + 20
  case pos => simp only [hl, ↓reduceIte, Option.isSome_none, Bool.false_eq_true, false_iff]; omega
  case neg =>
    by_cases hi : (data.byte l2Len &&& 0x0F).toNat < 5
    case pos =>
      simp only [hl, hi, ↓reduceIte, Option.isSome_none, Bool.false_eq_true, false_iff]
      omega
    case neg => simp only [hl, hi, ↓reduceIte, Option.isSome_some, true_iff]; omega

theorem parseIpv6_isSome : (parseIpv6 data l2Len).isSome ↔ l2Len + 40 ≤ data.length ∧
    (skipExtHeaders data maxExtHeaders ⟨data.byte (l2Len + 6), l2Len + 40, false⟩).isSome := by
  simp only [parseIpv6]
  split_ifs with h
  case pos => simp; omega
  case neg =>
    rw [and_iff_right (by omega)]
    cases skipExtHeaders data maxExtHeaders _ <;> simp

theorem parsePacket_isSome : (parsePacket data).isSome ↔
    ∃ off, findL2 data = some off ∧ LooksIp data off := by
  cases hf : findL2 data
  case none => simp [parsePacket, hf]
  case some off =>
    simp only [parsePacket, hf, Option.bind_eq_bind, Option.bind_some, Option.some.injEq,
      exists_eq_left', LooksIp]
    split_ifs with hl h4 h6
    case pos => simp; omega
    case pos => simp [parseIpv4_isSome, h4]
    case pos => simp [parseIpv6_isSome, h6]
    case neg =>
      simp only [Option.isSome_none, Bool.false_eq_true, false_iff]
      tauto

theorem ethernetLen_le (h : ethernetLen data = some off) : off ≤ 22 := by
  rw [ethernetLen] at h
  split_ifs at h <;> cases h <;> decide

theorem guessLen_eq_some {n : Nat} (h : guessLen data n = some off) : off = n := by
  rw [guessLen] at h
  split_ifs at h
  exact (Option.some.inj h).symm

theorem findL2_le (h : findL2 data = some off) : off ≤ 22 := by
  simp only [findL2, Option.or_eq_some_iff] at h
  rcases h with h | ⟨_, h | ⟨_, h⟩⟩
  case inl => exact ethernetLen_le h
  case inr.inl => exact guessLen_eq_some h ▸ Nat.zero_le _
  case inr.inr => exact guessLen_eq_some h ▸ by decide

theorem parseIpv4_eq_some (h : parseIpv4 data l2Len = some pkt) :
    pkt.l2Len = l2Len ∧ pkt.ver = .v4 := by
  simp only [parseIpv4] at h
  split_ifs at h
  all_goals
    cases h
    exact ⟨rfl, rfl⟩

theorem parseIpv6_eq_some (h : parseIpv6 data l2Len = some pkt) :
    pkt.l2Len = l2Len ∧ pkt.ver = .v6 := by
  simp only [parseIpv6, Option.bind_eq_bind] at h
  split_ifs at h
  obtain ⟨s, _, h⟩ := Option.bind_eq_some_iff.mp h
  cases h
  exact ⟨rfl, rfl⟩

-- What the parser has found where it says that the IP header starts.
theorem parsePacket_eq_some (h : parsePacket data = some pkt) : findL2 data = some pkt.l2Len ∧
    LooksIp data pkt.l2Len ∧ data.byte pkt.l2Len >>> 4 = pkt.ver.code := by
  obtain ⟨off, hf, hl⟩ := parsePacket_isSome.mp (Option.isSome_iff_exists.mpr ⟨pkt, h⟩)
  simp only [parsePacket, hf, Option.bind_eq_bind, Option.bind_some] at h
  split_ifs at h with _ h4 h6
  case pos =>
    have ⟨ho, hv⟩ := parseIpv4_eq_some h
    rw [ho, hv]
    exact ⟨hf, hl, h4⟩
  case pos =>
    have ⟨ho, hv⟩ := parseIpv6_eq_some h
    rw [ho, hv]
    exact ⟨hf, hl, h6⟩

-- The bytes at the start of a frame whose EtherType is neither that of IP nor a VLAN tag are taken
-- for an IP header if they look like one, otherwise those four bytes later.
theorem findL2_of_nonIp (ht : isIpType (data.be16 12) = false)
    (hv : isVlanType (data.be16 12) = false) :
    findL2 data = (guessLen data 0).or (guessLen data 4) := by
  have h : ethernetLen data = none := by simp [ethernetLen, ht, hv]
  rw [findL2, h, Option.none_or]

-- The guess of the parser for such a frame, as a condition on its bytes.
def MistakenForIp (frame : Bytes) : Prop :=
  if 20 ≤ frame.length ∧ isIpVersion (frame.byte 0) then LooksIp frame 0 else LooksIp frame 4

instance : Decidable (MistakenForIp frame) :=
  inferInstanceAs (Decidable (ite _ _ _))

theorem LooksIp.isIpVersion (h : LooksIp data off) : isIpVersion (data.byte off) := by
  rcases h with h | h <;> simp [Kernel.isIpVersion, h.1]

theorem LooksIp.length_le (h : LooksIp data off) : off + 20 ≤ data.length := by
  rcases h with h | h <;> omega

theorem parsePacket_isSome_of_nonIp (ht : isIpType (data.be16 12) = false)
    (hv : isVlanType (data.be16 12) = false) :
    (parsePacket data).isSome ↔ MistakenForIp data := by
  rw [parsePacket_isSome, findL2_of_nonIp ht hv, MistakenForIp]
  by_cases h₀ : 20 ≤ data.length ∧ isIpVersion (data.byte 0)
  case pos => simp [guessLen, h₀]
  case neg =>
    have h₀' : guessLen data 0 = none := by simpa [guessLen] using h₀
    rw [if_neg h₀, h₀', Option.none_or]
    constructor
    case mp =>
      intro ⟨off, hg, hl⟩
      rw [guessLen] at hg
      split_ifs at hg
      cases hg
      exact hl
    case mpr =>
      intro hl
      exact ⟨4, if_pos ⟨hl.length_le, hl.isIpVersion⟩, hl⟩

section Take

open Bytes (byte_take)

theorem skipExtHeaders_take {k : Nat} (h : (skipExtHeaders (data.take n) k s).isSome) :
    (skipExtHeaders data k s).isSome := by
  induction k generalizing s
  case zero => rfl
  case succ k ih =>
    by_cases he : isExtHeader s.nexthdr
    case neg => simp [skipExtHeaders, he]
    case pos =>
      have hlen : (data.take n).length = min n data.length := List.length_take
      by_cases hl : min n data.length < s.off + 8
      case pos => simp [skipExtHeaders, he, hl] at h
      case neg =>
        have hl' : ¬data.length < s.off + 8 := by omega
        simp only [skipExtHeaders, he, hlen, hl, hl', Bool.not_true, Bool.false_eq_true, ↓reduceIte,
          byte_take (show s.off < n by omega), byte_take (show s.off + 1 < n by omega)] at h ⊢
        generalize (if s.nexthdr = 44 then 8 else ((data.byte (s.off + 1)).toNat + 1) * 8) % 0x800 =
          hdrLen at h ⊢
        by_cases hh : min n data.length < s.off + hdrLen
        case pos => simp [hh] at h
        case neg =>
          have hh' : ¬data.length < s.off + hdrLen := by omega
          simp only [hh, hh', ↓reduceIte] at h ⊢
          exact ih h

-- What looks like IP at the front of a packet looks like IP in the packet.
theorem LooksIp.of_take (h : LooksIp (data.take n) off) : LooksIp data off := by
  have hlen : (data.take n).length = min n data.length := List.length_take
  have hl := h.length_le
  rw [hlen] at hl
  simp only [LooksIp, hlen, byte_take (show off < n by omega),
    byte_take (show off + 6 < n by omega)] at h ⊢
  exact h.imp (fun ⟨hv, hl, hi⟩ => ⟨hv, by omega, hi⟩)
    fun ⟨hv, hl, hs⟩ => ⟨hv, by omega, skipExtHeaders_take hs⟩

theorem MistakenForIp.of_take (hn : min data.length 128 ≤ n) (h : MistakenForIp (data.take n)) :
    MistakenForIp data := by
  have hlen : (data.take n).length = min n data.length := List.length_take
  have h₂₀ : 20 ≤ min n data.length ↔ 20 ≤ data.length := by omega
  simp only [MistakenForIp, hlen, h₂₀] at h ⊢
  by_cases hl : 20 ≤ data.length
  case neg => simpa [hl] using LooksIp.of_take (by simpa [hl] using h)
  case pos =>
    rw [byte_take (show 0 < n by omega)] at h
    split_ifs at h ⊢
    case pos => exact h.of_take
    case neg => exact h.of_take

end Take

end Kernel
