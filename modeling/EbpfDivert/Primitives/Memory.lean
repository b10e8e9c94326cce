import EbpfDivert.Primitives.Bytes
import Mathlib.Algebra.Order.Ring.Nat
import Mathlib.Data.List.GetD

-- Stores into byte strings, and numbers as they are in memory: in little-endian order.
namespace Bytes

variable {b b' v w : Bytes} {i j k n x : Nat}

section Slice

-- The bytes from `i` on, at most `n` of them.
def slice (b : Bytes) (i n : Nat) : Bytes :=
  (b.drop i).take n

theorem length_slice (h : i + n ≤ b.length) : (b.slice i n).length = n := by
  rw [slice, List.length_take, List.length_drop]
  omega

theorem byte_slice (h : j < n) : (b.slice i n).byte j = b.byte (i + j) := by
  rw [slice, byte_take h, byte_drop]

theorem byte_of_le (h : b.length ≤ i) : b.byte i = 0 := by
  simp [byte, List.getD_eq_getElem?_getD, h]

theorem byte_append_left (h : i < b.length) : byte (b ++ v) i = b.byte i := by
  rw [byte, byte, List.getD_append _ _ _ _ h]

theorem byte_append_right : byte (b ++ v) (b.length + i) = v.byte i := by
  rw [byte, byte, List.getD_append_right _ _ _ _ (Nat.le_add_right ..), Nat.add_sub_cancel_left]

theorem ext_byte (hl : b.length = b'.length) (h : ∀ i < b.length, b.byte i = b'.byte i) :
    b = b' := by
  refine List.ext_getElem hl fun i hi hi' => ?_
  have := h i hi
  simpa [byte, List.getD_eq_getElem?_getD, hi, hi'] using this

theorem slice_ext (hl : b.length = b'.length)
    (h : ∀ j, i ≤ j → j < i + n → b.byte j = b'.byte j) : b.slice i n = b'.slice i n := by
  refine ext_byte (by simp only [slice, List.length_take, List.length_drop, hl]) fun j hj => ?_
  have hj : j < n := by simp only [slice, List.length_take] at hj; omega
  rw [byte_slice hj, byte_slice hj]
  exact h (i + j) (Nat.le_add_right ..) (by omega)

theorem slice_append_left (h : i + n ≤ b.length) : slice (b ++ v) i n = b.slice i n := by
  rw [slice, slice, List.drop_append_of_le_length (by omega),
    List.take_append_of_le_length (by rw [List.length_drop]; omega)]

end Slice

section Store

-- Overwrites the bytes from `i` on. What would lie behind the end is lost.
def store (b : Bytes) (i : Nat) : Bytes → Bytes
  | []      => b
  | x :: xs => store (b.set i x) (i + 1) xs

@[simp]
theorem length_store : (b.store i v).length = b.length := by
  induction v generalizing b i
  case nil          => rfl
  case cons x xs ih => rw [store, ih, List.length_set]

theorem byte_set {x : BitVec 8} (hi : i < b.length) :
    byte (b.set i x) j = if j = i then x else b.byte j := by
  by_cases h : j = i
  case pos => simp [byte, List.getD_eq_getElem?_getD, h, hi]
  case neg => simp [byte, List.getD_eq_getElem?_getD, h, Ne.symm h]

theorem byte_store (h : i + v.length ≤ b.length) :
    (b.store i v).byte j = if i ≤ j ∧ j < i + v.length then v.byte (j - i) else b.byte j := by
  induction v generalizing b i
  case nil => rw [store, if_neg (by simp)]
  case cons x xs ih =>
    rw [List.length_cons] at h
    rw [store, ih (by rw [List.length_set]; omega), byte_set (by omega)]
    by_cases hj : j = i
    case pos =>
      subst hj
      rw [if_neg (by omega), if_pos rfl, if_pos (by simp), Nat.sub_self]
      rfl
    case neg =>
      by_cases hin : i + 1 ≤ j ∧ j < i + 1 + xs.length
      case pos =>
        rw [if_pos hin, if_pos (by rw [List.length_cons]; omega), show j - i = j - (i + 1) + 1 by omega]
        rfl
      case neg => rw [if_neg hin, if_neg hj, if_neg (by rw [List.length_cons]; omega)]

theorem byte_store_outside (h : j < i ∨ i + v.length ≤ j) : (b.store i v).byte j = b.byte j := by
  induction v generalizing b i
  case nil => rfl
  case cons x xs ih =>
    rw [List.length_cons] at h
    rw [store, ih (by omega)]
    have hj : i ≠ j := by omega
    simp [byte, List.getD_eq_getElem?_getD, hj]

theorem byte_store_of_not_in {n : Nat} (hv : v.length = n) (h : ¬(i ≤ j ∧ j < i + n)) :
    (b.store i v).byte j = b.byte j :=
  byte_store_outside (by omega)

theorem slice_store_inside (hv : k + n ≤ v.length) (h : i + v.length ≤ b.length) :
    (b.store i v).slice (i + k) n = v.slice k n := by
  have hl : ((b.store i v).slice (i + k) n).length = n := length_slice (by rw [length_store]; omega)
  refine ext_byte (hl.trans (length_slice hv).symm) fun j hj => ?_
  rw [hl] at hj
  rw [byte_slice hj, byte_slice hj, byte_store h, if_pos (by omega)]
  congr 1
  omega

theorem slice_store (hn : v.length = n) (h : i + n ≤ b.length) : (b.store i v).slice i n = v := by
  subst hn
  have hs : (b.store i v).slice (i + 0) v.length = v.slice 0 v.length :=
    slice_store_inside (Nat.zero_add _).le h
  rwa [Nat.add_zero, slice, slice, List.drop_zero, List.take_length] at hs

theorem slice_store_outside (h : j + n ≤ i ∨ i + v.length ≤ j) :
    (b.store i v).slice j n = b.slice j n :=
  slice_ext length_store fun _ _ _ => byte_store_outside (by omega)

-- A store that changes nothing stores what is already there.
theorem store_eq_self (h : i + v.length ≤ b.length) : b.store i v = b ↔ b.slice i v.length = v := by
  constructor
  case mp =>
    intro hs
    rw [← hs, slice_store rfl h]
  case mpr =>
    intro hs
    refine ext_byte length_store fun j _ => ?_
    rw [byte_store h]
    split
    case isFalse => rfl
    case isTrue hj => rw [← hs, byte_slice (by omega), Nat.add_sub_cancel' hj.left]

-- Two stores next to each other change nothing if neither does.
theorem store_store_eq_self (hd : i + v.length ≤ j) (hj : j + w.length ≤ b.length) :
    (b.store i v).store j w = b ↔ b.store i v = b ∧ b.store j w = b := by
  constructor
  case mpr =>
    intro ⟨hv, hw⟩
    rw [hv, hw]
  case mp =>
    intro h
    have hb (k : Nat) : ((b.store i v).store j w).byte k = b.byte k := by rw [h]
    constructor
    case left =>
      refine ext_byte length_store fun k _ => ?_
      by_cases hk : k < j
      case pos => rw [← hb k, byte_store_outside (.inl hk)]
      case neg => exact byte_store_outside (.inr (by omega))
    case right =>
      refine ext_byte length_store fun k _ => ?_
      rw [← hb k, byte_store hj, byte_store (by rwa [length_store])]
      split
      case isTrue => rfl
      case isFalse hk => rw [← hb k, byte_store (by rwa [length_store]), if_neg hk]

end Store

section Number

-- The lowest byte comes first.
def enc : Nat → Nat → Bytes
  | 0, _     => []
  | n + 1, x => .ofNat 8 x :: enc n (x / 256)

def dec : Bytes → Nat
  | []      => 0
  | b :: bs => b.toNat + 256 * dec bs

@[simp]
theorem length_enc : (enc n x).length = n := by
  induction n generalizing x
  case zero      => rfl
  case succ n ih => rw [enc, List.length_cons, ih]

theorem dec_enc (h : x < 256 ^ n) : dec (enc n x) = x := by
  induction n generalizing x
  case zero =>
    rw [Nat.pow_zero] at h
    rw [enc, dec]
    omega
  case succ n ih =>
    rw [enc, dec, ih (by rw [Nat.pow_succ] at h; omega), BitVec.toNat_ofNat]
    omega

end Number

end Bytes
