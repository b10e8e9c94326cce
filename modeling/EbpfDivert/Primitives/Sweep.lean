import Mathlib.Data.List.Induction
import Mathlib.Data.List.Perm.Basic

-- Removal from an array in which the last element takes the place of the removed one.
namespace Sweep

variable {α β : Type} {p : α → Bool} {a b : α} {l pre suf : List α} {fuel i : Nat}

-- The last element moves to index `i`.
def fill (i : Nat) (l : List α) : List α :=
  match l.getLast? with
  | none   => l
  | some b => (l.set i b).dropLast

-- Removes the elements from index `i` on that satisfy `p`. An element that has been moved is looked
-- at again. The removed elements come in the order in which they are found.
def sweep (p : α → Bool) : Nat → Nat → List α → List α × List α
  | 0, _, l        => ([], l)
  | fuel + 1, i, l =>
    match l[i]? with
    | none   => ([], l)
    | some a =>
      if p a then
        let (gone, l) := sweep p fuel i (fill i l)
        (a :: gone, l)
      else sweep p fuel (i + 1) l

-- Every iteration shortens the rest of the array.
def sweepAll (p : α → Bool) (l : List α) : List α × List α :=
  sweep p l.length 0 l

-- What is left behind the hole.
def front (suf : List α) : List α :=
  match suf.getLast? with
  | none   => []
  | some b => b :: suf.dropLast

@[simp]
theorem front_nil : front ([] : List α) = [] := rfl

@[simp]
theorem front_concat : front (suf ++ [b]) = b :: suf := by
  simp [front]

@[simp]
theorem length_front : (front suf).length = suf.length := by
  obtain rfl | ⟨s, b, rfl⟩ := suf.eq_nil_or_concat' <;> simp

theorem front_perm : (front suf).Perm suf := by
  obtain rfl | ⟨s, b, rfl⟩ := suf.eq_nil_or_concat'
  case inl => exact .nil
  case inr => simpa using (List.perm_append_singleton b s).symm

theorem fill_append : fill pre.length (pre ++ a :: suf) = pre ++ front suf := by
  obtain rfl | ⟨s, b, rfl⟩ := suf.eq_nil_or_concat'
  case inl => simp [fill]
  case inr =>
    have h : pre ++ a :: (s ++ [b]) = pre ++ a :: s ++ [b] := by simp
    have hs : (pre ++ a :: s ++ [b]).set pre.length b = pre ++ b :: s ++ [b] := by simp
    simp only [fill, h, List.getLast?_concat, hs, List.dropLast_concat, front_concat]

-- The array may have unused cells behind its elements.
theorem take_set_eq_fill {n : Nat} (hn : n ≤ l.length) (hi : i < n) (hb : l[n - 1]? = some b) :
    (l.set i b).take (n - 1) = fill i (l.take n) := by
  have hl : (l.take n).getLast? = some b := by
    rw [List.getLast?_eq_getElem?, List.length_take, Nat.min_eq_left hn, List.getElem?_take_of_lt (by omega), hb]
  simp only [fill, hl, List.dropLast_eq_take, List.length_set, List.length_take, Nat.min_eq_left hn]
  rw [← List.take_set, List.take_take, Nat.min_eq_left (by omega)]

theorem sweep_append_cons (pre : List α) (ha : p a) :
    sweep p (fuel + 1) pre.length (pre ++ a :: suf) =
      (a :: (sweep p fuel pre.length (pre ++ front suf)).1,
        (sweep p fuel pre.length (pre ++ front suf)).2) := by
  simp [sweep, ha, fill_append]

theorem sweep_append_cons_of_not (pre : List α) (ha : ¬p a) :
    sweep p (fuel + 1) pre.length (pre ++ a :: suf) =
      sweep p fuel (pre ++ [a]).length (pre ++ [a] ++ suf) := by
  simp [sweep, ha]

@[simp]
theorem sweep_length : sweep p fuel l.length l = ([], l) := by
  cases fuel <;> simp [sweep]

-- Exactly the elements that satisfy `p` are removed, and those before the index stay where they are.
theorem sweep_perm (pre : List α) (hf : suf.length ≤ fuel) :
    (sweep p fuel pre.length (pre ++ suf)).1.Perm (suf.filter p) ∧
    ∃ rest, (sweep p fuel pre.length (pre ++ suf)).2 = pre ++ rest ∧ rest.Perm (suf.filter (!p ·)) := by
  induction fuel generalizing pre suf
  case zero =>
    obtain rfl := List.eq_nil_of_length_eq_zero (Nat.le_zero.mp hf)
    simp [sweep]
  case succ fuel ih =>
    cases suf
    case nil => simp
    case cons a suf =>
      rw [List.length_cons, Nat.succ_le_succ_iff] at hf
      by_cases ha : p a
      case pos =>
        obtain ⟨hg, rest, hr, hk⟩ := ih pre (front_perm.length_eq ▸ hf)
        rw [sweep_append_cons _ ha, List.filter_cons_of_pos ha, List.filter_cons_of_neg (by simp [ha])]
        exact ⟨.cons a <| hg.trans <| front_perm.filter _, rest, hr, hk.trans <| front_perm.filter _⟩
      case neg =>
        obtain ⟨hg, rest, hr, hk⟩ := ih (pre ++ [a]) hf
        rw [sweep_append_cons_of_not _ ha, List.filter_cons_of_neg ha,
          List.filter_cons_of_pos (by simp [ha])]
        exact ⟨hg, a :: rest, by simpa using hr, hk.cons a⟩

theorem sweepAll_perm : (sweepAll p l).1.Perm (l.filter p) ∧
    (sweepAll p l).2.Perm (l.filter (!p ·)) := by
  obtain ⟨hg, rest, hr, hk⟩ := sweep_perm (p := p) [] l.length.le_refl
  exact ⟨hg, hr ▸ hk⟩

theorem sweep_of_forall_not (pre : List α) (h : ∀ a ∈ suf, ¬p a) :
    sweep p fuel pre.length (pre ++ suf) = ([], pre ++ suf) := by
  induction suf generalizing pre fuel
  case nil => simp
  case cons a suf ih =>
    have ⟨ha, h⟩ := List.forall_mem_cons.mp h
    cases fuel
    case zero => rfl
    case succ => simpa [sweep_append_cons_of_not _ ha] using ih (pre ++ [a]) h

-- Only the first element is removed.
theorem sweepAll_cons (ha : p a) (h : ∀ b ∈ front suf, ¬p b) :
    sweepAll p (a :: suf) = ([a], front suf) := by
  have hc : sweepAll p (a :: suf) = _ := sweep_append_cons [] ha
  rw [sweep_of_forall_not [] h] at hc
  exact hc

-- Elements in front that do not satisfy `p` stay where they are.
theorem sweep_append_of_not (pre suf : List α) (fuel : Nat) {mid : List α} (h : ∀ a ∈ mid, ¬p a) :
    sweep p (mid.length + fuel) pre.length (pre ++ (mid ++ suf)) =
      sweep p fuel (pre ++ mid).length (pre ++ mid ++ suf) := by
  induction mid generalizing pre
  case nil => simp
  case cons a mid ih =>
    obtain ⟨ha, h⟩ := List.forall_mem_cons.mp h
    rw [List.length_cons, Nat.succ_add, List.cons_append, sweep_append_cons_of_not _ ha, ih _ h]
    simp

theorem sweepAll_append_of_not (suf : List α) (h : ∀ a ∈ pre, ¬p a) :
    ∃ rest, (sweepAll p (pre ++ suf)).2 = pre ++ rest ∧ rest.Perm (suf.filter (!p ·)) := by
  have hs : sweep p (pre ++ suf).length 0 (pre ++ suf) = sweep p suf.length pre.length (pre ++ suf) := by
    have := sweep_append_of_not [] suf suf.length h
    rwa [List.nil_append, List.nil_append, ← List.length_append] at this
  rw [sweepAll, hs]
  exact (sweep_perm pre suf.length.le_refl).right

theorem map_front {f : α → β} : (front suf).map f = front (suf.map f) := by
  obtain rfl | ⟨s, b, rfl⟩ := suf.eq_nil_or_concat' <;> simp

-- What is noted on the elements does not change which of them are removed.
theorem sweep_map {f : α → β} {q : β → Bool} (pre suf : List α) :
    ((sweep (q ∘ f) fuel pre.length (pre ++ suf)).1.map f,
      (sweep (q ∘ f) fuel pre.length (pre ++ suf)).2.map f) =
    sweep q fuel (pre.map f).length (pre.map f ++ suf.map f) := by
  induction fuel generalizing pre suf
  case zero => simp [sweep]
  case succ fuel ih =>
    cases suf
    case nil => simp only [List.append_nil, List.map_nil, sweep_length]
    case cons a suf =>
      by_cases ha : q (f a)
      case pos =>
        have h := ih pre (front suf)
        rw [map_front] at h
        rw [sweep_append_cons (p := q ∘ f) _ ha, suf.map_cons, sweep_append_cons _ ha, ← h]
        rfl
      case neg =>
        have h := ih (pre ++ [a]) suf
        rw [List.map_append, List.map_cons, List.map_nil] at h
        rw [sweep_append_cons_of_not (p := q ∘ f) _ ha, suf.map_cons, sweep_append_cons_of_not _ ha, h]

theorem sweepAll_map {f : α → β} {q : β → Bool} (l : List α) :
    ((sweepAll (q ∘ f) l).1.map f, (sweepAll (q ∘ f) l).2.map f) =
      sweepAll q (l.map f) := by
  rw [sweepAll, sweepAll, List.length_map]
  exact sweep_map [] l

end Sweep
