import Mathlib.Data.List.Basic

-- Binary search in a list whose entries are compared with what is looked for.
namespace BinarySearch

variable {α : Type} {cmp : α → Ordering} {xs : List α} {x : α} {fuel lo hi : Nat}

-- The entries from `lo` up to `hi` are left.
def findFrom (cmp : α → Ordering) (xs : List α) : (fuel lo hi : Nat) → Option α
  | 0,        _,  _  => none
  | fuel + 1, lo, hi =>
    let mid := (lo + hi - 1) / 2
    if lo < hi then
      match xs[mid]? with
      | none   => none
      | some x =>
        match cmp x with
        | .lt => findFrom cmp xs fuel (mid + 1) hi
        | .gt => findFrom cmp xs fuel lo mid
        | .eq => some x
    else
      none

def find (cmp : α → Ordering) (xs : List α) : Option α :=
  findFrom cmp xs xs.length 0 xs.length

-- The entries that come too early stand before the one that is looked for, and the entries that come
-- too late behind it.
def Ordered (cmp : α → Ordering) (xs : List α) : Prop :=
  xs.Pairwise fun x y => cmp x ≠ .lt → cmp y = .gt

theorem mem_of_findFrom (h : findFrom cmp xs fuel lo hi = some x) : x ∈ xs ∧ cmp x = .eq := by
  fun_induction findFrom cmp xs fuel lo hi
  case case5 y hx hc =>
    obtain rfl := Option.some.inj h
    exact ⟨List.mem_of_getElem? hx, hc⟩
  case case3 ih => exact ih h
  case case4 ih => exact ih h
  all_goals simp at h

-- Where what is looked for has the position `k`, a comparison is one of positions.
theorem cmp_eq_compare (ho : Ordered cmp xs) {i k : Nat} {y : α} (hk : xs[k]? = some x)
    (hx : cmp x = .eq) (hi : xs[i]? = some y) : cmp y = compare i k := by
  obtain ⟨hks, rfl⟩ := List.getElem?_eq_some_iff.mp hk
  obtain ⟨his, rfl⟩ := List.getElem?_eq_some_iff.mp hi
  have ho := List.pairwise_iff_getElem.mp ho
  rcases Nat.lt_trichotomy i k with hik | rfl | hik
  · rw [Nat.compare_eq_lt.mpr hik]
    by_contra hc
    rw [ho i k his hks hik hc] at hx
    cases hx
  · rw [hx, Nat.compare_eq_eq.mpr rfl]
  · rw [Nat.compare_eq_gt.mpr hik]
    exact ho k i hks his hik (by simp [hx])

-- What is looked for stays between the two ends.
theorem findFrom_of_mem (ho : Ordered cmp xs) {k : Nat} (hk : xs[k]? = some x) (hx : cmp x = .eq)
    (hlo : lo ≤ k) (hhi : k < hi) (hs : hi ≤ xs.length) (hf : hi - lo ≤ fuel) :
    findFrom cmp xs fuel lo hi = some x := by
  fun_induction findFrom cmp xs fuel lo hi
  case case1 => omega
  case case2 mid _ hn =>
    rw [List.getElem?_eq_none_iff] at hn
    omega
  case case3 mid _ y hy hc ih =>
    rw [cmp_eq_compare ho hk hx hy, Nat.compare_eq_lt] at hc
    exact ih hc hhi hs (by omega)
  case case4 mid _ y hy hc ih =>
    rw [cmp_eq_compare ho hk hx hy, Nat.compare_eq_gt] at hc
    exact ih hlo hc (by omega) (by omega)
  case case5 mid _ y hy hc =>
    rw [cmp_eq_compare ho hk hx hy, Nat.compare_eq_eq] at hc
    subst hc
    exact hy.symm.trans hk
  case case6 => omega

theorem find_eq_some_iff (ho : Ordered cmp xs) : find cmp xs = some x ↔ x ∈ xs ∧ cmp x = .eq := by
  refine ⟨mem_of_findFrom, ?_⟩
  rintro ⟨hm, hx⟩
  obtain ⟨k, hk, hxk⟩ := List.getElem_of_mem hm
  exact findFrom_of_mem ho (List.getElem?_eq_some_iff.mpr ⟨hk, hxk⟩) hx (Nat.zero_le k) hk (Nat.le_refl _)
    (by omega)

end BinarySearch
