import EbpfDivert.Wd.Theorems.Checksum

-- Packets that only differ in their checksums are parsed alike.
namespace Wd

variable {packet packet' d : Bytes} {l l' : Located} {s : Chain} {n fuel i : Nat}

namespace Chain

-- The same place in another packet.
def moved (s : Chain) (d : Bytes) : Chain := { s with data := d }

theorem stride_moved (hl : d.length = s.data.length) (h₁ : d.byte 1 = s.data.byte 1) :
    (s.moved d).stride = s.stride := by
  simp only [stride, extHeaderLen, moved, hl, h₁]

theorem skip_moved (hb : ∀ i < 4, d.byte i = s.data.byte i) :
    (s.moved d).skip n = (s.skip n).moved (d.drop n) := by
  have h₀ := hb 0 (by omega)
  have h₃ := hb 3 (by omega)
  have h₂ : d.be16 2 = s.data.be16 2 := by rw [Bytes.be16, Bytes.be16, hb 2 (by omega), h₃]
  simp only [skip, moved, h₀, h₂, h₃]
  split <;> rfl

-- The walk goes as far if the bytes on its way are the same, and the first two where it ends.
theorem walk_moved (hl : d.length = s.data.length)
    (hb : ∀ i < s.data.length - (walk fuel s).data.length + 2, d.byte i = s.data.byte i) :
    walk fuel (s.moved d) =
      (walk fuel s).moved (d.drop (s.data.length - (walk fuel s).data.length)) := by
  induction fuel generalizing s d
  case zero => rw [walk, walk, Nat.sub_self, List.drop_zero]
  case succ fuel ih =>
    rw [walk_succ, walk_succ, stride_moved hl (hb 1 (by omega))]
    rw [walk_succ] at hb
    cases hn : s.stride
    case none =>
      dsimp only
      rw [Nat.sub_self, List.drop_zero]
    case some n =>
      simp only [hn] at hb ⊢
      obtain ⟨h₈, hle⟩ := le_of_stride hn
      obtain ⟨k, hk, hd⟩ := walk_data fuel (s.skip n)
      rw [data_skip] at hk hd
      have hsub : s.data.length - (walk fuel (s.skip n)).data.length = n + k := by
        rw [hd, List.length_drop]
        rw [List.length_drop] at hk ⊢
        omega
      have hrest : (s.skip n).data.length - (walk fuel (s.skip n)).data.length = k := by
        rw [data_skip, List.length_drop]
        omega
      rw [hsub] at hb ⊢
      rw [skip_moved fun i hi => hb i (by omega), ih, hrest, List.drop_drop]
      · rw [data_skip, List.length_drop, List.length_drop, hl]
      · intro i hi
        rw [hrest] at hi
        rw [data_skip, Bytes.byte_drop, Bytes.byte_drop]
        exact hb (n + i) (by omega)

end Chain

namespace Agree

variable (h : Agree packet packet') (hl : locate packet = some l)

include h hl

-- No checksum is in the IP headers, except that of the IPv4 header, or at the very start of the
-- transport header.
theorem byte_eq (hi : i < l.off packet + 2) (hip : l.ipv6 ∨ i < 10 ∨ 12 ≤ i) :
    packet'.byte i = packet.byte i := by
  refine h.byte i fun ⟨l', hl', hc⟩ => ?_
  cases hl.symm.trans hl'
  obtain ⟨hv, h₁, h₂⟩ | ⟨k, -, h₁, h₂⟩ := hc
  case inl =>
    rw [hv] at hip
    simp only [Bool.false_eq_true, false_or] at hip
    omega
  case inr =>
    have : 2 ≤ k.field := by cases k <;> decide
    omega

theorem be16_eq (hi : i + 1 < l.off packet + 2) (hip : l.ipv6 ∨ i < 9 ∨ 12 ≤ i) :
    packet'.be16 i = packet.be16 i := by
  have hip' : l.ipv6 ∨ i + 1 < 10 ∨ 12 ≤ i + 1 := hip.imp_right (by omega)
  have hip : l.ipv6 ∨ i < 10 ∨ 12 ≤ i := hip.imp_right (by omega)
  rw [Bytes.be16, Bytes.be16, h.byte_eq hl (by omega) hip, h.byte_eq hl hi hip']

theorem byte_tcp (hp : l.chain.protocol = ipprotoTcp) :
    packet'.byte (l.off packet + 12) = packet.byte (l.off packet + 12) := by
  refine h.byte _ fun ⟨l', hl', hc⟩ => ?_
  cases hl.symm.trans hl'
  obtain ⟨-, h₁, h₂⟩ | ⟨k, hk, h₁, h₂⟩ := hc
  case inl =>
    have := (locate_ok hl).min_le
    omega
  case inr =>
    rw [Located.kind, kindOf, if_pos hp] at hk
    split_ifs at hk
    cases hk
    simp only [Kind.field] at h₁
    omega

theorem byte_take_eq (hi : i < l.off packet + 2) (hip : l.ipv6 ∨ i < 10 ∨ 12 ≤ i) :
    Bytes.byte (packet'.take n) i = Bytes.byte (packet.take n) i := by
  by_cases hn : i < n
  case pos => rw [Bytes.byte_take hn, Bytes.byte_take hn, h.byte_eq hl hi hip]
  case neg =>
    rw [Bytes.byte_of_le (by rw [List.length_take]; omega),
      Bytes.byte_of_le (by rw [List.length_take]; omega)]

-- The transport header is found at the same place.
theorem found : Found packet'
    { l with chain := l.chain.moved ((packet'.take l.totalLen).drop (l.off packet)) } := by
  have ho := locate_ok hl
  have hb (i : Nat) (hi : i < 10) : packet'.byte i = packet.byte i :=
    h.byte_eq hl (by have := ho.min_le; omega) (.inr (.inl hi))
  have hw (i : Nat) (hi : i < 9) : packet'.be16 i = packet.be16 i :=
    h.be16_eq hl (by have := ho.min_le; omega) (.inr (.inl hi))
  have h₀ := hb 0 (by omega)
  cases locate_eq_some.mp hl
  case v4 hlen hv h₅ ht hp =>
    have hoff : Located.off ⟨(IpHdr.decode packet).length.toNat, false, chain4 packet⟩ packet =
      (IpHdr.decode packet).hdrLength.toNat * 4 := Located.off_of_drop (Nat.le_min.mpr ⟨ht, hp⟩) rfl
    have hh : (IpHdr.decode packet').hdrLength = (IpHdr.decode packet).hdrLength := by
      simp only [IpHdr.decode, h₀]
    have htl : (IpHdr.decode packet').length = (IpHdr.decode packet).length := hw 2 (by omega)
    have hc : chain4 packet' = (chain4 packet).moved
        ((packet'.take (IpHdr.decode packet).length.toNat).drop
          ((IpHdr.decode packet).hdrLength.toNat * 4)) := by
      simp only [chain4, Chain.moved, IpHdr.decode, hb, hw, Nat.reduceLT]
    simp only [hoff, ← hc]
    rw [← htl]
    exact .v4 (h.length ▸ hlen) (h₀ ▸ hv) (hh ▸ h₅) (hh ▸ htl ▸ ht) (hh ▸ h.length ▸ hp)
  case v6 hlen hv =>
    obtain ⟨k, hk, hd⟩ := Chain.walk_data packet.length (chain6 packet)
    have hlen₁ : (chain6 packet).data.length = min (total6 packet) packet.length - 40 := by
      rw [chain6, List.length_drop, List.length_take]
      rfl
    have hrest : (chain6 packet).data.length - ((chain6 packet).walk packet.length).data.length = k := by
      rw [hd, List.length_drop]
      omega
    have hoff : Located.off ⟨total6 packet, true, (chain6 packet).walk packet.length⟩ packet =
        40 + k := by
      have : 40 ≤ total6 packet := Nat.le_add_left ..
      refine Located.off_of_drop ?_ (by rw [hd, chain6, List.drop_drop]; rfl)
      simp only [Ipv6Hdr.size] at hlen ⊢
      omega
    have ht : total6 packet' = total6 packet := by rw [total6, Ipv6Hdr.decode, hw 4 (by omega)]; rfl
    have hc : chain6 packet' =
        (chain6 packet).moved ((packet'.take (total6 packet)).drop Ipv6Hdr.size) := by
      rw [chain6, Ipv6Hdr.decode, hb 6 (by omega), ht]
      rfl
    have hwalk : (chain6 packet').walk packet.length = ((chain6 packet).walk packet.length).moved
        ((packet'.take (total6 packet)).drop (40 + k)) := by
      rw [hc, Chain.walk_moved, hrest, List.drop_drop]
      · rfl
      · simp [chain6, h.length]
      · intro i hi
        rw [hrest] at hi
        rw [chain6, Bytes.byte_drop, Bytes.byte_drop]
        exact h.byte_take_eq hl (by rw [hoff, Ipv6Hdr.size]; omega) (.inl rfl)
    simp only [hoff, ← hwalk]
    rw [← ht, ← h.length]
    exact .v6 (h.length ▸ hlen) (h₀ ▸ hv)

end Agree

theorem kindOf_congr {ipv6 : Bool} {protocol : BitVec 8} {data : Bytes}
    (hl : d.length = data.length)
    (hb : protocol = ipprotoTcp → 13 ≤ data.length → d.byte 12 = data.byte 12) :
    kindOf ipv6 protocol d = kindOf ipv6 protocol data := by
  rw [kindOf, kindOf, hl]
  by_cases ht : protocol = ipprotoTcp
  case neg => rw [if_neg ht, if_neg ht]
  case pos =>
    rw [if_pos ht, if_pos ht]
    by_cases hs : data.length < TcpHdr.size
    case pos => rw [if_pos (.inl hs), if_pos (.inl hs)]
    case neg =>
      have h₁₂ := hb ht (by simp only [TcpHdr.size] at hs; omega)
      have hh : (TcpHdr.decode d).hdrLength = (TcpHdr.decode data).hdrLength := by
        simp only [TcpHdr.decode, h₁₂]
      rw [hh]

-- Both packets have the same transport header at the same place.
theorem Agree.alike (h : Agree packet packet') (hl' : locate packet' = some l') :
    ∃ l, locate packet = some l ∧ l'.ipv6 = l.ipv6 ∧ l'.kind = l.kind ∧
      l'.off packet' = l.off packet := by
  cases hl : locate packet
  case none =>
    have he : packet' = packet := by
      refine Bytes.ext_byte h.length fun i _ => h.byte i fun ⟨l, hl₁, _⟩ => ?_
      rw [hl] at hl₁
      cases hl₁
    rw [he, hl] at hl'
    cases hl'
  case some l =>
    have ho := locate_ok hl
    obtain rfl := Option.some.inj (hl'.symm.trans (locate_eq_some.mpr (h.found hl)))
    have hlen : ((packet'.take l.totalLen).drop (l.off packet)).length = l.chain.data.length := by
      rw [ho.data, List.length_drop, List.length_drop, List.length_take, List.length_take, h.length]
    have hk : kindOf l.ipv6 l.chain.protocol ((packet'.take l.totalLen).drop (l.off packet)) =
        kindOf l.ipv6 l.chain.protocol l.chain.data := by
      refine kindOf_congr hlen fun hp h₁₃ => ?_
      rw [ho.data, List.length_drop, List.length_take] at h₁₃
      rw [ho.data, Bytes.byte_drop, Bytes.byte_drop, Bytes.byte_take (by omega),
        Bytes.byte_take (by omega), h.byte_tcp hl hp]
    refine ⟨l, rfl, rfl, ?_, ?_⟩
    · simp only [Located.kind, Chain.moved, hk]
    · simp only [Located.off, Chain.moved, h.length]
      rw [← Located.off, hlen]
      rfl

namespace Agree

theorem refl : Agree packet packet :=
  ⟨rfl, fun _ _ => rfl⟩

theorem checksumAt (h : Agree packet packet') (hc : ChecksumAt packet' i) : ChecksumAt packet i := by
  obtain ⟨l', hl', hc⟩ := hc
  obtain ⟨l, hl, hv, hk, ho⟩ := h.alike hl'
  exact ⟨l, hl, by rwa [hv, hk, ho] at hc⟩

theorem trans {packet'' : Bytes} (h : Agree packet packet') (h' : Agree packet' packet'') :
    Agree packet packet'' where
  length      := h'.length.trans h.length
  byte i hi   := (h'.byte i (hi ∘ h.checksumAt)).trans (h.byte i hi)

end Agree

end Wd
