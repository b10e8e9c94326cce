import Mathlib.Computability.StateTransition

-- Procedures that call each other without a bound. The body of a call changes the state and then
-- makes further calls, one after the other.
namespace CallStack

open StateTransition (Reaches eval)

variable {σ κ ρ α : Type}

abbrev Body (σ κ : Type) := κ → σ → σ × List κ

-- The calls that are still to be made, the next one first.
structure Config (σ κ : Type) where
  state : σ
  calls : List κ

def step (body : Body σ κ) : Config σ κ → Option (Config σ κ)
  | ⟨_, []⟩      => none
  | ⟨s, k :: ks⟩ => some ⟨(body k s).1, (body k s).2 ++ ks⟩

-- The calls come to an end, whatever is to be called after them.
def Returns (body : Body σ κ) (ks : List κ) (s s' : σ) : Prop :=
  ∀ rest, Reaches (step body) ⟨s, ks ++ rest⟩ ⟨s', rest⟩

-- In the states at hand, the calls come to an end and do to a part of the state what `f` does.
def Does (body : Body σ κ) (p : σ → Prop) (view : σ → ρ) (ks : List κ) (f : ρ → ρ) : Prop :=
  ∀ s, p s → ∃ s', Returns body ks s s' ∧ p s' ∧ view s' = f (view s)

variable {body : Body σ κ} {c c' : Config σ κ} {s s₁ s' : σ} {k : κ} {ks ks' : List κ}

-- What the bodies of all procedures preserve.
theorem invariant {p : σ → Prop} (h : Reaches (step body) c c') (h₀ : p c.state)
    (hp : ∀ k s, p s → p (body k s).1) : p c'.state := by
  induction h
  case refl => exact h₀
  case tail c₁ c₂ _ hs ih =>
    obtain ⟨s, ks⟩ := c₁
    cases ks <;> cases hs
    exact hp _ _ ih

namespace Returns

theorem nil : Returns body [] s s :=
  fun _ => .refl

theorem append (h : Returns body ks s s₁) (h' : Returns body ks' s₁ s') :
    Returns body (ks ++ ks') s s' := by
  intro rest
  rw [List.append_assoc]
  exact (h _).trans (h' rest)

-- Without any other calls that is the end.
theorem mem_eval (h : Returns body ks s s') : ⟨s', []⟩ ∈ eval (step body) ⟨s, ks⟩ :=
  StateTransition.mem_eval.mpr ⟨List.append_nil ks ▸ h [], rfl⟩

theorem call (h : Returns body (body k s).2 (body k s).1 s') : Returns body [k] s s' :=
  fun rest => .head rfl (h rest)

-- A call that makes no other calls.
theorem done (h : body k s = (s', [])) : Returns body [k] s s' :=
  call (by rw [h]; exact nil)

end Returns

namespace Does

variable {p : σ → Prop} {view : σ → ρ} {f g : ρ → ρ}

theorem nil : Does body p view [] id :=
  fun s hs => ⟨s, .nil, hs, rfl⟩

theorem append (h : Does body p view ks f) (h' : Does body p view ks' g) :
    Does body p view (ks ++ ks') (g ∘ f) := by
  intro s hs
  obtain ⟨s₁, hr, hs₁, hv⟩ := h s hs
  obtain ⟨s₂, hr', hs₂, hv'⟩ := h' s₁ hs₁
  exact ⟨s₂, hr.append hr', hs₂, by rw [hv', hv, Function.comp_apply]⟩

-- One group of calls for every element of a list.
theorem foldl {g : ρ → α → ρ} {calls : α → List κ} {as : List α}
    (h : ∀ a ∈ as, Does body p view (calls a) (g · a)) :
    Does body p view (as.flatMap calls) fun r => as.foldl g r := by
  induction as
  case nil => exact nil
  case cons a as ih =>
    rw [List.flatMap_cons]
    exact (h a List.mem_cons_self).append (ih fun a ha => h a (List.mem_cons_of_mem _ ha))

-- A call that leaves the state to the calls that it makes.
theorem call (hb : ∀ s, body k s = (s, ks)) (h : Does body p view ks f) : Does body p view [k] f := by
  intro s hs
  obtain ⟨s', hr, hs', hv⟩ := h s hs
  exact ⟨s', .call (by rwa [hb]), hs', hv⟩

end Does

end CallStack
