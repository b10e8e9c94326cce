import Mathlib.Data.List.Basic
import Mathlib.Tactic.Common

-- Strings that are put together from pieces which know their own length.
namespace Pieces

variable {α : Type*} (len : List α → Option Nat)

-- Why no further piece is split off: there are enough, nothing is left, the length of the next piece
-- cannot be told, or it is longer than what is left.
inductive Ending
  | enough
  | empty
  | unknown
  | short
  deriving DecidableEq

def split : Nat → List α → List (List α) × Ending
  | 0, _     => ([], .enough)
  | n + 1, l =>
    if l.isEmpty then ([], .empty)
    else match len l with
      | none   => ([], .unknown)
      | some k =>
        if l.length < k then ([], .short)
        else
          let (qs, e) := split n (l.drop k)
          (l.take k :: qs, e)

-- The first piece of a string, or all of it if its length cannot be told.
def first (l : List α) : List α :=
  match len l with
  | none   => l
  | some k => l.take k

-- The length of a piece does not depend on what follows.
structure Delimiting : Prop where
  pos  : ∀ {l k}, len l = some k → 0 < k
  take : ∀ {l k}, k ≤ l.length → (len (l.take k) = some k ↔ len l = some k)

variable {len} {l q : List α} {qs : List (List α)} {n k : Nat}

theorem split_nil : split len (n + 1) [] = ([], .empty) := rfl

theorem split_unknown (hl : l ≠ []) (hk : len l = none) : split len (n + 1) l = ([], .unknown) := by
  rw [split, if_neg (by simpa using hl), hk]

theorem split_short (hl : l ≠ []) (hk : len l = some k) (h : l.length < k) :
    split len (n + 1) l = ([], .short) := by
  rw [split, if_neg (by simpa using hl), hk]
  exact if_pos h

theorem split_cons (hl : l ≠ []) (hk : len l = some k) (h : k ≤ l.length) : split len (n + 1) l =
    (l.take k :: (split len n (l.drop k)).1, (split len n (l.drop k)).2) := by
  rw [split, if_neg (by simpa using hl), hk]
  exact if_neg (Nat.not_lt.mpr h)

-- Either there is no first piece, or the others are split off behind it.
theorem split_succ (len : List α → Option Nat) (n : Nat) (l : List α) :
    (split len (n + 1) l).1 = [] ∨ ∃ k, l ≠ [] ∧ len l = some k ∧ k ≤ l.length := by
  by_cases hl : l = []
  case pos => exact .inl (by rw [hl, split_nil])
  case neg =>
    cases hk : len l
    case none => exact .inl (by rw [split_unknown hl hk])
    case some k =>
      by_cases hle : k ≤ l.length
      case pos => exact .inr ⟨k, hl, rfl, hle⟩
      case neg => exact .inl (by rw [split_short hl hk (by omega)])

theorem length_split (n : Nat) (l : List α) : (split len n l).1.length ≤ n := by
  induction n generalizing l
  case zero => exact Nat.le_refl 0
  case succ n ih =>
    obtain hn | ⟨k, hl, hk, hle⟩ := split_succ len n l
    case inl => rw [hn]; exact Nat.zero_le _
    case inr =>
      rw [split_cons hl hk hle]
      exact Nat.succ_le_succ (ih _)

-- All the pieces are split off if and only if the string starts with them.
theorem split_eq_iff (hd : Delimiting len) : (split len qs.length l).1 = qs ↔
    (∀ q ∈ qs, len q = some q.length) ∧ qs.flatten <+: l := by
  induction qs generalizing l
  case nil => simp [split]
  case cons q qs ih =>
    rw [List.length_cons, List.forall_mem_cons, List.flatten_cons]
    constructor
    case mp =>
      intro hs
      obtain hn | ⟨k, hl, hk, hle⟩ := split_succ len qs.length l
      case inl => rw [hn] at hs; cases hs
      case inr =>
        rw [split_cons hl hk hle] at hs
        obtain ⟨rfl, hqs⟩ := List.cons_eq_cons.mp hs
        obtain ⟨hlen, hpre⟩ := ih.mp hqs
        refine ⟨⟨?_, hlen⟩, ?_⟩
        · rw [List.length_take_of_le hle]
          exact (hd.take hle).mpr hk
        · conv_rhs => rw [← List.take_append_drop k l]
          exact (List.prefix_append_right_inj _).mpr hpre
    case mpr =>
      intro ⟨⟨hq, hlen⟩, ⟨t, ht⟩⟩
      have hle : q.length ≤ l.length := by simp only [← ht, List.length_append]; omega
      have htake : l.take q.length = q := by rw [← ht, List.append_assoc, List.take_left]
      have hdrop : l.drop q.length = qs.flatten ++ t := by
        rw [← ht, List.append_assoc, List.drop_left]
      have hk : len l = some q.length := (hd.take hle).mp (by rwa [htake])
      have hl : l ≠ [] := by
        have := hd.pos hk
        rintro rfl
        rw [List.length_nil] at hle
        omega
      rw [split_cons hl hk hle, htake, hdrop, ih.mpr ⟨hlen, t, rfl⟩]

theorem ending_of_split (hs : (split len n l).1.length = n) : (split len n l).2 = .enough := by
  induction n generalizing l
  case zero => rfl
  case succ n ih =>
    obtain hn | ⟨k, hl, hk, hle⟩ := split_succ len n l
    case inl => rw [hn] at hs; cases hs
    case inr =>
      rw [split_cons hl hk hle] at hs ⊢
      exact ih (Nat.succ.inj hs)

-- The string ends with the first piece or goes on behind it.
theorem len_first_iff (hd : Delimiting len) :
    len (first len l) = some (first len l).length ↔ ∃ k ≤ l.length, len l = some k := by
  rw [first]
  cases hk : len l
  case none => simp [hk]
  case some k =>
    simp only [Option.some.injEq, exists_eq_right']
    by_cases hle : k ≤ l.length
    case pos => simp only [List.length_take_of_le hle, hle, (hd.take hle).mpr hk]
    case neg =>
      have ht : l.take k = l := List.take_of_length_le (by omega)
      rw [ht, hk]
      exact iff_of_false (fun he => hle (Nat.le_of_eq (Option.some.inj he))) hle

end Pieces
