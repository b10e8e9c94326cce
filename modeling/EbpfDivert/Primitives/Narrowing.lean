import Mathlib.Data.Option.Basic
import Mathlib.Tactic.TypeStar

-- Abstract elements that stand for sets of values and are narrowed by one constraint after the
-- other. Narrowing fails if nothing is left. Otherwise a flag says whether the result is exact.
namespace Narrowing

variable {α β τ : Type*}

-- One more constraint. The flag is the conjunction of all flags so far.
def step (apply : α → τ → Option (α × Bool)) (s : α × Bool) (t : τ) : Option (α × Bool) :=
  (apply s.1 t).map fun (a, e) => (a, s.2 && e)

-- The constraints one after the other, for as long as something is left.
def applyAll (apply : α → τ → Option (α × Bool)) (a : α) (ts : List τ) : Option (α × Bool) :=
  ts.foldlM (step apply) (a, true)

-- What is required of one constraint: it keeps the invariant, loses no value that satisfies it and,
-- if the result is exact, leaves no other.
structure Sound (inv : α → Prop) (mem : α → β → Prop) (sat : τ → β → Prop)
    (apply : α → τ → Option (α × Bool)) : Prop where
  pres  : ∀ {a t a' e}, inv a → apply a t = some (a', e) → inv a'
  keeps : ∀ {a t a' e v}, inv a → apply a t = some (a', e) → mem a v → sat t v → mem a' v
  exact : ∀ {a t a' v}, inv a → apply a t = some (a', true) → mem a' v → mem a v ∧ sat t v

variable {inv : α → Prop} {mem : α → β → Prop} {sat : τ → β → Prop}
variable {apply : α → τ → Option (α × Bool)} {a a' : α} {e e' : Bool} {ts : List τ}

-- The result of a sequence of constraints stands for the values that satisfy all of them.
structure Narrowed (inv : α → Prop) (mem : α → β → Prop) (sat : τ → β → Prop) (a : α) (ts : List τ)
    (a' : α) (e : Bool) : Prop where
  holds : inv a'
  keeps : ∀ {v}, mem a v → (∀ t ∈ ts, sat t v) → mem a' v
  exact : e = true → ∀ {v}, mem a' v → mem a v ∧ ∀ t ∈ ts, sat t v

theorem Sound.foldlM (h : Sound inv mem sat apply) (hi : inv a)
    (ha : ts.foldlM (step apply) (a, e) = some (a', e')) :
    Narrowed inv mem sat a ts a' e' ∧ (e' = true → e = true) := by
  induction ts generalizing a e
  case nil =>
    cases ha
    exact ⟨⟨hi, fun hv _ => hv, fun _ _ hv => ⟨hv, by simp⟩⟩, id⟩
  case cons t ts ih =>
    simp only [List.foldlM_cons, step, Option.bind_eq_bind, Option.bind_eq_some_iff,
      Option.map_eq_some_iff] at ha
    obtain ⟨_, ⟨⟨b, f⟩, hb, rfl⟩, ha⟩ := ha
    have ⟨n, hf⟩ := ih (h.pres hi hb) ha
    refine ⟨⟨n.holds, fun hv hs => ?_, fun he v hv => ?_⟩, fun he => ?_⟩
    · exact n.keeps (h.keeps hi hb hv (hs t (by simp))) fun t ht => hs t (by simp [ht])
    · have ⟨hv, hs⟩ := n.exact he hv
      obtain rfl : f = true := (Bool.and_eq_true_iff.mp (hf he)).right
      have ⟨hv, ht⟩ := h.exact hi hb hv
      exact ⟨hv, by simpa using ⟨ht, hs⟩⟩
    · exact (Bool.and_eq_true_iff.mp (hf he)).left

theorem Sound.applyAll (h : Sound inv mem sat apply) (hi : inv a)
    (ha : applyAll apply a ts = some (a', e')) : Narrowed inv mem sat a ts a' e' :=
  (h.foldlM hi ha).left

end Narrowing
