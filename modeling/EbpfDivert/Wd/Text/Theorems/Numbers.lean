import EbpfDivert.Primitives.Digits
import EbpfDivert.Wd.Text.Numbers

-- Numbers of 128 bits are read and written exactly.
namespace Wd.Text

section Read

variable {n n' : Words} {m c b : Nat} {str rest : CString} {isDigit : Char → Bool}

theorem mulAdd128_of_lt (h : n.value * m + c < 2 ^ 128) :
    ∃ n', mulAdd128 m c n = some n' ∧ n'.value = n.value * m + c := by
  have hv := @Limbs.value_mulAdd 32 n.limbs m c
  rw [n.length_eq] at hv
  change _ = n.value * m + c at hv
  have hz : (Limbs.mulAdd m c n.limbs).2 = 0 := by
    by_contra hne
    have := Nat.le_mul_of_pos_right (2 ^ (32 * 4)) (Nat.pos_of_ne_zero hne)
    omega
  refine ⟨_, by rw [mulAdd128, if_pos hz], ?_⟩
  rw [hz] at hv
  exact hv

theorem mulAdd128_of_le (h : 2 ^ 128 ≤ n.value * m + c) : mulAdd128 m c n = none := by
  have hv := @Limbs.value_mulAdd 32 n.limbs m c
  have hlt := Limbs.value_lt (Limbs.mulAdd m c n.limbs).1
  rw [Limbs.length_mulAdd] at hlt
  rw [n.length_eq] at hv hlt
  change _ = n.value * m + c at hv
  rw [mulAdd128, if_neg]
  intro hz
  rw [hz] at hv
  omega

-- The number that the digits at the start of a string continue.
def digitsValue (isDigit : Char → Bool) (b n : Nat) (str : CString) : Nat :=
  (str.takeWhile isDigit).foldl (fun n c => b * n + CString.digitVal c) n

theorem le_foldl (hb : 1 ≤ b) (n : Nat) :
    n ≤ str.foldl (fun n c => b * n + CString.digitVal c) n := by
  induction str generalizing n
  case nil => exact Nat.le_refl n
  case cons c str ih =>
    refine Nat.le_trans (m := b * n + CString.digitVal c) ?_ (ih _)
    have := Nat.le_mul_of_pos_left n hb
    omega

theorem readDigits_of_lt (hb : 1 ≤ b) (h : digitsValue isDigit b n.value str < 2 ^ 128) :
    ∃ n', readDigits isDigit b n str = some (n', str.dropWhile isDigit) ∧
      n'.value = digitsValue isDigit b n.value str := by
  induction str generalizing n
  case nil => exact ⟨n, rfl, rfl⟩
  case cons c str ih =>
    by_cases hc : isDigit c
    case neg => exact ⟨n, by simp [readDigits, hc], by simp [digitsValue, hc]⟩
    case pos =>
      have hv : digitsValue isDigit b n.value (c :: str) =
          digitsValue isDigit b (b * n.value + CString.digitVal c) str := by
        simp [digitsValue, hc]
      have hle := @le_foldl b (str.takeWhile isDigit) hb (b * n.value + CString.digitVal c)
      rw [hv] at h
      rw [digitsValue] at h
      obtain ⟨n₁, h₁, hn₁⟩ := mulAdd128_of_lt (n := n) (m := b) (c := 0)
        (by rw [Nat.mul_comm]; omega)
      obtain ⟨n₂, h₂, hn₂⟩ := mulAdd128_of_lt (n := n₁) (m := 1) (c := CString.digitVal c)
        (by rw [hn₁, Nat.mul_comm n.value]; omega)
      have hn : n₂.value = b * n.value + CString.digitVal c := by
        rw [hn₂, hn₁, Nat.mul_comm n.value]
        omega
      obtain ⟨n', hr, hn'⟩ := ih (n := n₂) (by rw [hn]; exact h)
      refine ⟨n', ?_, by rw [hn', hn, hv]⟩
      simp [readDigits, hc, mul128, h₁, add128, h₂, hr]

-- A number of more than 128 bits is refused, wherever the digit stands that makes it too long.
theorem readDigits_of_le (h : 2 ^ 128 ≤ digitsValue isDigit b n.value str) :
    readDigits isDigit b n str = none := by
  induction str generalizing n
  case nil => exact absurd n.value_lt (Nat.not_lt.mpr h)
  case cons c str ih =>
    by_cases hc : isDigit c
    case neg =>
      simp [digitsValue, hc] at h
      exact absurd n.value_lt (Nat.not_lt.mpr h)
    case pos =>
      have hv : digitsValue isDigit b n.value (c :: str) =
          digitsValue isDigit b (b * n.value + CString.digitVal c) str := by
        simp [digitsValue, hc]
      rw [hv] at h
      simp only [readDigits, hc, if_true, mul128, add128, Option.bind_eq_bind]
      by_cases h₁ : n.value * b + 0 < 2 ^ 128
      case neg => rw [mulAdd128_of_le (Nat.le_of_not_lt h₁), Option.bind_none]
      case pos =>
        obtain ⟨n₁, he₁, hn₁⟩ := mulAdd128_of_lt h₁
        rw [he₁, Option.bind_some]
        by_cases h₂ : n₁.value * 1 + CString.digitVal c < 2 ^ 128
        case neg => rw [mulAdd128_of_le (Nat.le_of_not_lt h₂), Option.bind_none]
        case pos =>
          obtain ⟨n₂, he₂, hn₂⟩ := mulAdd128_of_lt h₂
          rw [he₂, Option.bind_some]
          refine ih ?_
          have : n₂.value = b * n.value + CString.digitVal c := by
            rw [hn₂, hn₁, Nat.mul_comm n.value]
            omega
          rwa [this]

-- A number that was written is read back, whatever follows it other than a digit.
theorem readDigits_toDigits {k : Nat} (hb : 1 < b) (hb' : b ≤ 16) (hk : k < 2 ^ 128)
    (hd : ∀ d < b, isDigit (Nat.digitChar d)) (hs : ∀ c ∈ rest.head?, isDigit c = false) :
    ∃ n, readDigits isDigit b .zero (Nat.toDigits b k ++ rest) = some (n, rest) ∧ n.value = k := by
  have hall : ∀ c ∈ Nat.toDigits b k, isDigit c := by
    intro c hc
    obtain ⟨d, hdb, rfl⟩ := Digits.mem_toDigits hb hc
    exact hd d hdb
  have ht : rest.takeWhile isDigit = [] ∧ rest.dropWhile isDigit = rest := by
    cases rest
    case nil => exact ⟨rfl, rfl⟩
    case cons c rest => simp [hs c rfl]
  have hv : digitsValue isDigit b Words.zero.value (Nat.toDigits b k ++ rest) = k := by
    rw [digitsValue, List.takeWhile_append_of_pos hall, ht.1, List.append_nil]
    exact Digits.foldl_toDigits hb hb'
  obtain ⟨n, hr, hn⟩ := readDigits_of_lt (n := .zero) (by omega : 1 ≤ b) (hv ▸ hk)
  rw [List.dropWhile_append_of_pos hall, ht.2] at hr
  exact ⟨n, hr, hn.trans hv⟩

theorem head_toDigits {k : Nat} (hb : 1 < b) (hd : ∀ d < b, isDigit (Nat.digitChar d)) :
    (Nat.toDigits b k ++ rest).head?.any isDigit := by
  obtain ⟨c, ds, hc⟩ := List.exists_cons_of_ne_nil (Nat.toDigits_ne_nil (b := b) (n := k))
  obtain ⟨d, hdb, rfl⟩ := Digits.mem_toDigits hb (hc ▸ List.mem_cons_self)
  simp [hc, hd d hdb]

theorem isDigit_digitChar {d : Nat} (hd : d < 10) : (Nat.digitChar d).isDigit := by
  simp [Nat.isDigit_digitChar, hd]

theorem isXDigit_digitChar {d : Nat} (hd : d < 16) : isXDigit (Nat.digitChar d) := by
  interval_cases d <;> rfl

theorem aToI_toDigits {k : Nat} (hk : k < 2 ^ 128) (hs : ∀ c ∈ rest.head?, c.isDigit = false) :
    ∃ n, aToI (Nat.toDigits 10 k ++ rest) = some (n, rest) ∧ n.value = k := by
  obtain ⟨n, hr, hn⟩ := readDigits_toDigits (b := 10) (by decide) (by decide) hk
    (fun _ => isDigit_digitChar) hs
  exact ⟨n, by rw [aToI, if_pos (head_toDigits (by decide) fun _ => isDigit_digitChar), hr], hn⟩

theorem aToX_toDigits {k : Nat} (hk : k < 2 ^ 128) (hs : ∀ c ∈ rest.head?, isXDigit c = false) :
    ∃ n, aToX false (Nat.toDigits 16 k ++ rest) = some (n, rest) ∧
      aToX true ('0' :: 'x' :: (Nat.toDigits 16 k ++ rest)) = some (n, rest) ∧ n.value = k := by
  obtain ⟨n, hr, hn⟩ := readDigits_toDigits (b := 16) (by decide) (by decide) hk
    (fun _ => isXDigit_digitChar) hs
  refine ⟨n, ?_, hr, hn⟩
  exact (if_pos (head_toDigits (by decide) fun _ => isXDigit_digitChar)).trans hr

end Read

section Write

variable {a : Words} {r r' : List (BitVec 32)} {i : Nat}

-- The terms of a sum, each with the limb at which it is added.
def total (terms : List (Nat × Nat × Nat)) : Nat :=
  (terms.map fun (a, c, i) => 2 ^ (32 * i) * (a * c)).sum

theorem foldlM_bigMulRound (terms : List (Nat × Nat × Nat)) (hi : ∀ t ∈ terms, t.2.2 ≤ r.length)
    (h : Limbs.value r + total terms < 2 ^ (32 * r.length)) :
    ∃ r', terms.foldlM (fun r (a, c, i) => bigMulRound r a c i) r = some r' ∧ r'.length = r.length ∧
      Limbs.value r' = Limbs.value r + total terms := by
  induction terms generalizing r
  case nil => exact ⟨r, rfl, rfl, rfl⟩
  case cons t terms ih =>
    obtain ⟨a, c, i⟩ := t
    have ht : total ((a, c, i) :: terms) = 2 ^ (32 * i) * (a * c) + total terms := rfl
    have hle : i ≤ r.length := hi _ List.mem_cons_self
    rw [ht] at h ⊢
    obtain ⟨hv, hz⟩ := Limbs.addAt_of_lt (t := a * c) hle (by omega)
    have hs : bigMulRound r a c i = some (Limbs.addAt (a * c) i r).1 := by simp [bigMulRound, hz]
    have hlen : (Limbs.addAt (a * c) i r).1.length = r.length := Limbs.length_addAt
    obtain ⟨r', hf, hl, hr⟩ := ih (r := (Limbs.addAt (a * c) i r).1)
      (fun t ht => by rw [hlen]; exact hi t (List.mem_cons_of_mem _ ht)) (by rw [hlen, hv]; omega)
    refine ⟨r', ?_, hl.trans hlen, by rw [hr, hv]; omega⟩
    simp only [List.foldlM_cons, hs, Option.bind_eq_bind, Option.bind_some, hf]

theorem value_replicate (k : Nat) : Limbs.value (List.replicate k (0 : BitVec 32)) = 0 := by
  induction k
  case zero => rfl
  case succ k ih => rw [List.replicate_succ, Limbs.value_cons, ih]; rfl

-- The quotient comes from a multiplication, and the remainder from the part of the product that was
-- cut off.
theorem divTen_arith {v : Nat} (hv : v < 2 ^ 128) :
    v * Limbs.value tenth / 2 ^ 160 = v / 10 ∧
    v * Limbs.value tenth % 2 ^ 160 * 10 / 2 ^ 160 = v % 10 := by
  have ht : Limbs.value tenth = 0x199999999999999999999999999999999999999A := by decide
  have hq := Nat.div_add_mod v 10
  have hr := Nat.mod_lt v (by decide : 0 < 10)
  generalize v / 10 = q at hq ⊢
  generalize v % 10 = r at hq hr ⊢
  have hp : v * Limbs.value tenth = 2 ^ 160 * q + (4 * q + r * 0x199999999999999999999999999999999999999A) := by
    rw [ht, ← hq]
    omega
  have hm : (4 * q + r * 0x199999999999999999999999999999999999999A) * 10 =
      2 ^ 160 * r + (40 * q + 4 * r) := by
    omega
  have hlt : 4 * q + r * 0x199999999999999999999999999999999999999A < 2 ^ 160 := by omega
  have hlt' : 40 * q + 4 * r < 2 ^ 160 := by omega
  rw [hp, Nat.mul_add_div (by decide), Nat.div_eq_of_lt hlt, Nat.mul_add_mod, Nat.mod_eq_of_lt hlt, hm,
    Nat.mul_add_div (by decide), Nat.div_eq_of_lt hlt']
  exact ⟨rfl, rfl⟩

theorem total_schoolbook (f g : Nat → Nat) :
    total (([0, 1, 2, 3].flatMap fun i => [0, 1, 2, 3, 4].map fun j => (i, j)).map
      fun (i, j) => (f i, g j, i + j)) =
      (f 0 + 2 ^ 32 * (f 1 + 2 ^ 32 * (f 2 + 2 ^ 32 * f 3))) *
      (g 0 + 2 ^ 32 * (g 1 + 2 ^ 32 * (g 2 + 2 ^ 32 * (g 3 + 2 ^ 32 * g 4)))) := by
  simp only [total, List.flatMap_cons, List.flatMap_nil, List.map_cons, List.map_nil, List.cons_append,
    List.nil_append, List.append_nil, List.sum_cons, List.sum_nil]
  ring

theorem total_product (a : Words) :
    total (([0, 1, 2, 3].flatMap fun i => [0, 1, 2, 3, 4].map fun j => (i, j)).map
      fun (i, j) => ((a.word i).toNat, (tenth.getD j 0).toNat, i + j)) =
      a.value * Limbs.value tenth := by
  rw [total_schoolbook (fun i => (a.word i).toNat) fun j => (tenth.getD j 0).toNat, a.value_eq_words]
  rfl

theorem total_low (r : List (BitVec 32)) :
    total ([0, 1, 2, 3, 4].map fun i => ((r.getD i 0).toNat, 10, i)) = Limbs.value r % 2 ^ 160 * 10 := by
  have h (q : Nat) : (r.getD q 0).toNat = Limbs.value r / 2 ^ (32 * q) % 2 ^ 32 :=
    Limbs.value_div_mod.symm
  simp only [total, List.map_cons, List.map_nil, List.sum_cons, List.sum_nil, h]
  omega

-- Four limbs of a number.
theorem value_limbs {v : Nat} (hv : v < 2 ^ 128) : v % 2 ^ 32 + 2 ^ 32 * (v / 2 ^ 32 % 2 ^ 32 +
    2 ^ 32 * (v / 2 ^ 64 % 2 ^ 32 + 2 ^ 32 * (v / 2 ^ 96 % 2 ^ 32))) = v := by
  omega

theorem value_high (h : Limbs.value r / 2 ^ 160 < 2 ^ 128) :
    (Words.of (r.getD 5 0) (r.getD 6 0) (r.getD 7 0) (r.getD 8 0)).value = Limbs.value r / 2 ^ 160 := by
  have hd (q : Nat) : (r.getD (5 + q) 0).toNat = Limbs.value r / 2 ^ 160 / 2 ^ (32 * q) % 2 ^ 32 := by
    rw [← Limbs.value_div_mod, Nat.div_div_eq_div_mul, ← Nat.pow_add, Nat.mul_add]
  rw [Words.value_of, hd 0, hd 1, hd 2, hd 3, Nat.mul_zero, Nat.pow_zero, Nat.div_one]
  exact value_limbs h

theorem divTen128_eq (a : Words) :
    ∃ q, divTen128 a = some (q, a.value % 10) ∧ q.value = a.value / 10 := by
  obtain ⟨hq, hrem⟩ := divTen_arith a.value_lt
  have hlt : a.value * Limbs.value tenth < 2 ^ (32 * 9) := by
    rw [show 32 * 9 = 128 + 160 from rfl, Nat.pow_add]
    exact Nat.mul_lt_mul'' a.value_lt (Limbs.value_lt tenth)
  obtain ⟨r, hr, -, hv⟩ := foldlM_bigMulRound (r := List.replicate 9 0)
    (([0, 1, 2, 3].flatMap fun i => [0, 1, 2, 3, 4].map fun j => (i, j)).map
      fun (i, j) => ((a.word i).toNat, (tenth.getD j 0).toNat, i + j))
    (by simp) (by rw [value_replicate, total_product, List.length_replicate, Nat.zero_add]; exact hlt)
  rw [value_replicate, total_product, Nat.zero_add] at hv
  obtain ⟨m, hm, -, hmv⟩ := foldlM_bigMulRound (r := List.replicate 6 0)
    ([0, 1, 2, 3, 4].map fun i => ((r.getD i 0).toNat, 10, i))
    (by simp) (by rw [value_replicate, total_low, List.length_replicate]; omega)
  rw [value_replicate, total_low, Nat.zero_add, hv] at hmv
  rw [List.foldlM_map] at hr hm
  refine ⟨.of (r.getD 5 0) (r.getD 6 0) (r.getD 7 0) (r.getD 8 0), ?_, ?_⟩
  case refine_1 =>
    have h₅ : (m.getD 5 0).toNat = a.value % 10 := by
      rw [← Limbs.value_div_mod, hmv, hrem]
      omega
    simp only [divTen128, hr, hm, h₅, Option.bind_eq_bind, Option.bind_some]
  case refine_2 =>
    have hlt := a.value_lt
    rw [value_high (by rw [hv, hq]; omega), hv, hq]

theorem formatDecNumber32From_eq {k v : Nat} {zeroes : Bool} (hv : v < 10 ^ (k + 1)) :
    formatDecNumber32From k zeroes v = Digits.fromTop 10 (k + 1) zeroes v := by
  induction k generalizing v zeroes
  case zero =>
    have hd : v / 10 ^ 0 % 10 = v := by omega
    simp only [formatDecNumber32From, Digits.fromTop, hd, if_true]
    split
    case isTrue h => rw [h.1]; rfl
    case isFalse => rfl
  case succ k ih =>
    have hlt : v / 10 ^ (k + 1) < 10 := by
      rw [Nat.div_lt_iff_lt_mul (by positivity), Nat.mul_comm, ← Nat.pow_succ]
      exact hv
    have hr (zeroes : Bool) : formatDecNumber32From k zeroes (v % 10 ^ (k + 1)) =
        Digits.fromTop 10 (k + 1) zeroes v := by
      rw [ih (Nat.mod_lt _ (by positivity)), Digits.fromTop_congr (Nat.mod_mod ..)]
    rw [formatDecNumber32From, Digits.fromTop, hr, hr, Nat.mod_eq_of_lt hlt]

theorem formatDecNumber32_eq (v : BitVec 32) : formatDecNumber32 v = Nat.toDigits 10 v.toNat := by
  have := v.isLt
  rw [formatDecNumber32, formatDecNumber32From_eq (by omega), Digits.fromTop_eq_toDigits (by decide) (by omega)]

theorem eq_zero_iff : a = .zero ↔ a.value = 0 := by
  rw [← Words.value_inj, Words.value_zero]

theorem formatDecNumberFrom_eq {left : Nat} (h₀ : 0 < a.value) (h : a.value < 10 ^ left) :
    formatDecNumberFrom left a = some (Nat.toDigits 10 a.value).reverse := by
  induction left generalizing a
  case zero => omega
  case succ left ih =>
    obtain ⟨q, hq, hv⟩ := divTen128_eq a
    rw [formatDecNumberFrom, if_neg (by rw [eq_zero_iff]; omega), hq, Nat.toDigits_eq_if (by decide)]
    by_cases hz : q.value = 0
    case pos =>
      have hf : formatDecNumberFrom left q = some [] := by
        cases left
        case zero => rfl
        case succ => rw [formatDecNumberFrom, if_pos (eq_zero_iff.mpr hz)]
      have hlt : a.value < 10 := by omega
      simp only [Option.bind_eq_bind, Option.bind_some, hf, hlt, if_true, List.reverse_singleton,
        Nat.mod_eq_of_lt hlt]
    case neg =>
      have hf := ih (a := q) (by omega) (by rw [hv]; omega)
      have hge : ¬a.value < 10 := by omega
      simp only [Option.bind_eq_bind, Option.bind_some, hf, hge, if_false, List.reverse_append, hv,
        List.reverse_singleton, List.singleton_append]

theorem formatDecNumber_eq (a : Words) : formatDecNumber a = some (Nat.toDigits 10 a.value) := by
  have hlt := a.value_lt
  rw [formatDecNumber]
  split
  case isTrue h => rw [h, Words.value_zero, Nat.toDigits_zero]
  case isFalse h =>
    rw [eq_zero_iff] at h
    rw [formatDecNumberFrom_eq (by omega) (by omega), Option.map_some, List.reverse_reverse]

theorem formatHexFrom_eq {k : Nat} {zeroes : Bool} :
    formatHexFrom k zeroes a = Digits.fromTop 16 k zeroes a.value := by
  induction k generalizing zeroes
  case zero => rfl
  case succ k ih =>
    have hd : (a.word (k / 8)).toNat / 16 ^ (k % 8) % 16 = a.value / 16 ^ k % 16 := by
      rw [Words.word, ← Limbs.value_div_mod, ← Words.value, Nat.pow_mul, show 2 ^ 32 = 16 ^ 8 from rfl,
        ← Nat.pow_mul, Digits.digit_mod (Nat.mod_lt k (by decide)), Nat.div_div_eq_div_mul, ← Nat.pow_add,
        Nat.div_add_mod]
    simp only [formatHexFrom, Digits.fromTop, hd, ih]

theorem value_lt_topWord (a : Words) : a.value < 16 ^ (8 * (topWord a + 1)) := by
  have h₀ := (a.word 0).isLt
  have h₁ := (a.word 1).isLt
  have h₂ := (a.word 2).isLt
  have h₃ := (a.word 3).isLt
  rw [a.value_eq_words, topWord]
  split_ifs <;> simp_all <;> omega

theorem formatHexNumber_eq (a : Words) : formatHexNumber a = Nat.toDigits 16 a.value := by
  rw [formatHexNumber, formatHexFrom_eq, Digits.fromTop_eq_toDigits (by decide) (value_lt_topWord a)]

end Write

end Wd.Text
