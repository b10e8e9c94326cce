import Mathlib.Data.List.AList

-- Singly linked lists in memory.
namespace Linked

structure Node (α : Type) where
  data : α
  next : Option Nat

-- The cells that are allocated.
abbrev Heap (α : Type) := AList fun _ : Nat => Node α

variable {α : Type} {heap heap' : Heap α} {p next : Option Nat} {i j : Nat} {a b : α}
variable {xs ys : List (Nat × α)}

-- The list that starts at `p` consists of these cells.
def Chain (heap : Heap α) : Option Nat → List (Nat × α) → Prop
  | p, []           => p = none
  | p, (i, a) :: xs => p = some i ∧ ∃ next, heap.lookup i = some ⟨a, next⟩ ∧ Chain heap next xs

theorem Chain.eq_nil_iff (hc : Chain heap p xs) : xs = [] ↔ p = none := by
  cases xs
  case nil  => simpa [Chain] using hc
  case cons => simp [hc.left]

theorem Chain.lookup (hc : Chain heap p xs) (hm : (i, a) ∈ xs) :
    ∃ next, heap.lookup i = some ⟨a, next⟩ := by
  induction xs generalizing p
  case nil => cases hm
  case cons x xs ih =>
    have ⟨_, next, hl, hc⟩ := hc
    rcases List.mem_cons.mp hm with rfl | hm
    case inl => exact ⟨next, hl⟩
    case inr => exact ih hc hm

theorem Chain.mem_heap (hc : Chain heap p xs) (hm : i ∈ xs.map Prod.fst) : i ∈ heap := by
  obtain ⟨x, hx, rfl⟩ := List.mem_map.mp hm
  have ⟨_, hl⟩ := hc.lookup hx
  exact AList.lookup_isSome.mp (by simp [hl])

-- Only the cells of the list matter.
theorem Chain.frame (hc : Chain heap p xs)
    (hf : ∀ i ∈ xs.map Prod.fst, heap'.lookup i = heap.lookup i) : Chain heap' p xs := by
  induction xs generalizing p
  case nil => exact hc
  case cons x xs ih =>
    have ⟨hp, next, hl, hc⟩ := hc
    have ⟨hx, hf⟩ := List.forall_mem_cons.mp hf
    exact ⟨hp, next, hx.trans hl, ih hc hf⟩

theorem Chain.unique (hx : Chain heap p xs) (hy : Chain heap p ys) : xs = ys := by
  induction xs generalizing p ys
  case nil =>
    cases hx
    exact (hy.eq_nil_iff.mpr rfl).symm
  case cons x xs ih =>
    have ⟨hp, next, hl, hc⟩ := hx
    cases ys
    case nil => exact absurd (hp.symm.trans hy) (by simp)
    case cons y ys =>
      obtain ⟨i, a⟩ := x
      obtain ⟨j, b⟩ := y
      have ⟨hp', next', hl', hc'⟩ := hy
      cases hp.symm.trans hp'
      cases hl.symm.trans hl'
      rw [ih hc hc']

theorem Chain.suffix (hc : Chain heap p (xs ++ ys)) : ∃ q, Chain heap q ys := by
  induction xs generalizing p
  case nil       => exact ⟨p, hc⟩
  case cons _ ih =>
    have ⟨_, next, _, hc⟩ := hc
    exact ih hc

-- A list that ends does not run in circles.
theorem Chain.nodup (hc : Chain heap p xs) : (xs.map Prod.fst).Nodup := by
  induction xs generalizing p
  case nil => exact .nil
  case cons x xs ih =>
    have ⟨hp, next, hl, ht⟩ := hc
    refine .cons (fun hm => ?_) (ih ht)
    obtain ⟨⟨j, a⟩, hm, he⟩ := List.mem_map.mp hm
    obtain ⟨ys, zs, rfl⟩ := List.append_of_mem hm
    have ⟨q, hs⟩ := ht.suffix
    have hq : q = p := hs.left.trans (by rw [hp, ← he])
    have := congrArg List.length <| hc.unique (hq ▸ hs)
    simp at this
    omega

theorem Chain.length_le (hc : Chain heap p xs) : xs.length ≤ heap.entries.length := by
  have hs : xs.map Prod.fst ⊆ heap.keys := fun i hi => hc.mem_heap hi
  simpa [AList.keys, List.keys] using (List.subperm_of_subset hc.nodup hs).length_le

-- Removing the first cell.
theorem Chain.erase_head (hc : Chain heap p ((i, a) :: xs)) :
    ∃ next, heap.lookup i = some ⟨a, next⟩ ∧ Chain (heap.erase i) next xs := by
  have ⟨_, next, hl, ht⟩ := hc
  refine ⟨next, hl, ht.frame fun j hj => AList.lookup_erase_ne ?_⟩
  rintro rfl
  exact (List.nodup_cons.mp hc.nodup).left hj

-- Adding a cell behind the last one.
theorem Chain.snoc (hc : Chain heap p (xs ++ [(i, a)])) (hj : j ∉ heap) :
    Chain ((heap.insert j ⟨b, none⟩).insert i ⟨a, some j⟩) p (xs ++ [(i, a), (j, b)]) := by
  have hij : j ≠ i := by
    rintro rfl
    exact hj <| hc.mem_heap (by simp)
  induction xs generalizing p
  case nil =>
    refine ⟨hc.left, _, AList.lookup_insert _, rfl, _, ?_, rfl⟩
    rw [AList.lookup_insert_ne hij, AList.lookup_insert]
  case cons x xs ih =>
    have hn := hc.nodup
    obtain ⟨hp, next, hl, ht⟩ := hc
    refine ⟨hp, next, ?_, ih ht⟩
    have hxi : x.1 ≠ i := by
      rintro rfl
      simp at hn
    have hxj : x.1 ≠ j := by
      rintro rfl
      exact hj <| AList.lookup_isSome.mp (by simp [hl])
    rw [AList.lookup_insert_ne hxi, AList.lookup_insert_ne hxj, hl]

end Linked
