import Mathlib.Algebra.BigOperators.Group.Finset.Basic
import Mathlib.Algebra.Order.BigOperators.Group.Finset
import Mathlib.Data.Fintype.Basic

-- Threads that take turns. Each has a program location of its own and all of them share a state.
namespace Threads

open Function (update)

variable {T S L E : Type}

section Count

variable [Fintype T] {p : L → Prop} [DecidablePred p] {pc : T → L} {t : T} {l : L}

-- The number of threads at certain locations.
def count (p : L → Prop) [DecidablePred p] (pc : T → L) : Nat :=
  ∑ t, if p (pc t) then 1 else 0

theorem count_eq_zero : count p pc = 0 ↔ ∀ t, ¬p (pc t) := by
  simp [count]

theorem count_pos (h : p (pc t)) : 0 < count p pc := by
  rw [Nat.pos_iff_ne_zero, Ne, count_eq_zero]
  exact fun hn => hn t h

theorem exists_of_count_pos (h : 0 < count p pc) : ∃ t, p (pc t) := by
  by_contra hn
  exact h.ne' <| count_eq_zero.mpr fun t ht => hn ⟨t, ht⟩

theorem count_update [DecidableEq T] {l₀ : L} (ht : pc t = l₀) :
    count p (update pc t l) + (if p l₀ then 1 else 0) = count p pc + if p l then 1 else 0 := by
  have hr : ∑ t' ∈ Finset.univ.erase t, (if p (update pc t l t') then 1 else 0) =
      ∑ t' ∈ Finset.univ.erase t, if p (pc t') then 1 else 0 := by
    refine Finset.sum_congr rfl fun t' ht' => ?_
    rw [Function.update_of_ne (Finset.ne_of_mem_erase ht')]
  rw [count, count, ← Finset.add_sum_erase _ _ (Finset.mem_univ t), hr,
    ← Finset.add_sum_erase _ (fun t => if p (pc t) then 1 else 0) (Finset.mem_univ t),
    Function.update_self, ht]
  omega

end Count

@[ext]
structure Config (T S L : Type) where
  shared : S
  pc     : T → L

-- What a thread at a location may do to the shared state, as a relation with an event.
abbrev Program (S L E : Type) := E → S → L → S → L → Prop

variable [DecidableEq T] {prog : Program S L E} {c c' c₀ : Config T S L} {es : List (T × E)}

-- One thread moves, the others stay where they are.
inductive Step (prog : Program S L E) : T × E → Config T S L → Config T S L → Prop
  | mk {c t e s l} : prog e c.shared (c.pc t) s l → Step prog (t, e) c ⟨s, update c.pc t l⟩

-- The events of a run, the last one first.
inductive Trace (prog : Program S L E) (c₀ : Config T S L) : List (T × E) → Config T S L → Prop
  | nil : Trace prog c₀ [] c₀
  | cons {a es c c'} : Trace prog c₀ es c → Step prog a c c' → Trace prog c₀ (a :: es) c'

-- What holds at the start and is kept by what any thread does holds after every run.
theorem Trace.invariant {P : List (T × E) → Config T S L → Prop} (h₀ : P [] c₀)
    (hs : ∀ es c t e s l, P es c → prog e c.shared (c.pc t) s l →
      P ((t, e) :: es) ⟨s, update c.pc t l⟩)
    (ht : Trace prog c₀ es c) : P es c := by
  induction ht
  case nil => exact h₀
  case cons hp ih =>
    obtain ⟨hp⟩ := hp
    exact hs _ _ _ _ _ _ ih hp

theorem Trace.append {es' : List (T × E)} (h : Trace prog c₀ es c) (h' : Trace prog c es' c') :
    Trace prog c₀ (es' ++ es) c' := by
  induction h'
  case nil        => exact h
  case cons hs ih => exact ih.cons hs

-- Several steps of one program, the last event first.
inductive Solo (prog : Program S L E) (s₀ : S) (l₀ : L) : List E → S → L → Prop
  | nil : Solo prog s₀ l₀ [] s₀ l₀
  | cons {e es s l s' l'} : Solo prog s₀ l₀ es s l → prog e s l s' l' →
    Solo prog s₀ l₀ (e :: es) s' l'

-- They may be those of one thread while the others wait.
theorem Solo.trace {t : T} {es : List E} {s : S} {l : L}
    (h : Solo prog c.shared (c.pc t) es s l) :
    Trace prog c (es.map (t, ·)) ⟨s, update c.pc t l⟩ := by
  induction h
  case nil => simpa using Trace.nil
  case cons s l s' l' _ hp ih =>
    have hs : Step prog (t, _) ⟨s, update c.pc t l⟩ ⟨s', update (update c.pc t l) t l'⟩ :=
      .mk (by simpa using hp)
    rw [Function.update_idem] at hs
    exact ih.cons hs

section Map

variable {S' L' E' : Type} {prog' : Program S' L' E'} {f : S → S'} {g : L → L'}

-- What remains of a state and of the locations if part of them is left out.
def Config.map (f : S → S') (g : L → L') (c : Config T S L) : Config T S' L' :=
  ⟨f c.shared, g ∘ c.pc⟩

theorem Config.map_update {s : S} {pc : T → L} {t : T} {l : L} :
    Config.map f g ⟨s, update pc t l⟩ = ⟨f s, update (g ∘ pc) t (g l)⟩ := by
  rw [Config.map, Function.comp_update]

-- A program whose steps are those of another one, or are not seen by it, has no other runs.
theorem Trace.map (hs : ∀ e s l s' l', prog e s l s' l' →
      (f s' = f s ∧ g l' = g l) ∨ ∃ e', prog' e' (f s) (g l) (f s') (g l'))
    (h : Trace prog c₀ es c) : ∃ es', Trace prog' (c₀.map f g) es' (c.map f g) := by
  induction h
  case nil => exact ⟨[], .nil⟩
  case cons hp ih =>
    obtain ⟨es', ih⟩ := ih
    obtain @⟨_, t, _, _, _, hp⟩ := hp
    obtain ⟨hf, hg⟩ | ⟨e', hp⟩ := hs _ _ _ _ _ hp
    case inl =>
      refine ⟨es', ?_⟩
      rwa [Config.map_update, hf, hg, ← Function.comp_apply (f := g), Function.update_eq_self]
    case inr =>
      refine ⟨(t, e') :: es', ih.cons ?_⟩
      rw [Config.map_update]
      exact .mk hp

end Map

end Threads
