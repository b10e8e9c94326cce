import Mathlib.Data.List.Basic

-- Readers of texts: from a list of characters to a value and what is left over.
abbrev Reader (τ α : Type) := StateT (List τ) Option α

namespace Reader

variable {τ α β : Type} {r : Reader τ α} {f : α → Reader τ β} {w w' : List τ} {a : α} {b : β}

-- The next character.
def next (f : τ → Option α) : Reader τ α
  | []      => none
  | t :: ts => (f t).map (·, ts)

-- The reader takes `w` for `a`, whatever follows.
def Reads (r : Reader τ α) (w : List τ) (a : α) : Prop :=
  ∀ t, r.run (w ++ t) = some (a, t)

-- A reader that decides by what it has read, and that fails at the character `z`.
def Prompt (z : τ) (r : Reader τ α) : Prop :=
  ∀ s a t, r.run s = some (a, t) → ∃ w, s = w ++ t ∧ z ∉ w ∧ r.Reads w a

theorem run_guard {p : Prop} [Decidable p] {s : List τ} :
    (guard p : Reader τ Unit).run s = if p then some ((), s) else none := by
  rw [guard]
  split <;> rfl

namespace Reads

protected theorem pure : (pure a : Reader τ α).Reads [] a :=
  fun _ => rfl

protected theorem next {g : τ → Option α} {c : τ} (h : g c = some a) : (next g).Reads [c] a := by
  intro t
  simp [StateT.run, Reader.next, h]

protected theorem guard {p : Prop} [Decidable p] (h : p) : (guard p : Reader τ Unit).Reads [] () :=
  fun _ => by rw [run_guard, if_pos h]; rfl

protected theorem bind (h : r.Reads w a) (h' : (f a).Reads w' b) :
    (r >>= f).Reads (w ++ w') b := by
  intro t
  rw [StateT.run_bind, List.append_assoc, h (w' ++ t)]
  exact h' t

theorem check {p : Prop} [Decidable p] {r : Unit → Reader τ β} (h : p) (h' : (r ()).Reads w b) :
    ((guard p : Reader τ Unit) >>= r).Reads w b :=
  (Reads.guard h).bind h'

-- The rest of a reader that does not read any more.
theorem last (h : r.Reads w a) (h' : (f a).Reads [] b) : (r >>= f).Reads w b :=
  List.append_nil w ▸ h.bind h'

theorem run_bind (h : r.Reads w a) (t : List τ) : (r >>= f).run (w ++ t) = (f a).run t := by
  rw [StateT.run_bind, h t]
  rfl

-- Two readings of one text.
theorem unique {a' : α} (h : r.Reads w a) (h' : r.Reads (w ++ w') a') : w' = [] := by
  have h₁ := h w'
  have h₂ := h' []
  rw [List.append_nil, h₁] at h₂
  exact (Prod.mk.inj (Option.some.inj h₂)).2

end Reads

namespace Prompt

variable {z : τ}

protected theorem pure : Prompt z (pure a : Reader τ α) := by
  rintro s a' t ⟨⟩
  exact ⟨[], rfl, List.not_mem_nil, .pure⟩

protected theorem failure : Prompt z (failure : Reader τ α) :=
  nofun

protected theorem next {g : τ → Option α} (h : g z = none) : Prompt z (next g) := by
  intro s a t hs
  cases s
  case nil => cases hs
  case cons c cs =>
    obtain ⟨a', ha, he⟩ := Option.map_eq_some_iff.mp hs
    cases he
    refine ⟨[c], rfl, fun hz => ?_, .next ha⟩
    rw [← List.mem_singleton.mp hz, h] at ha
    cases ha

protected theorem guard {p : Prop} [Decidable p] : Prompt z (guard p : Reader τ Unit) := by
  intro s a t hs
  rw [run_guard] at hs
  split at hs
  case isTrue hp => cases hs; exact ⟨[], rfl, List.not_mem_nil, .guard hp⟩
  case isFalse => cases hs

protected theorem bind (h : Prompt z r) (h' : ∀ a, Prompt z (f a)) : Prompt z (r >>= f) := by
  intro s b t hs
  rw [StateT.run_bind] at hs
  obtain ⟨⟨a, s'⟩, ha, hb⟩ := Option.bind_eq_some_iff.mp hs
  obtain ⟨w, rfl, hz, hr⟩ := h _ _ _ ha
  obtain ⟨w', rfl, hz', hr'⟩ := h' a _ _ _ hb
  refine ⟨w ++ w', (List.append_assoc ..).symm, ?_, hr.bind hr'⟩
  rw [List.mem_append]
  exact not_or.mpr ⟨hz, hz'⟩

-- Where the last character of a text is replaced, it cannot be read any more.
theorem cut {c : τ} {u : List τ} (h : Prompt z r) (hr : r.Reads (w ++ [c]) a) :
    r.run (w ++ z :: u) = none := by
  cases hs : r.run (w ++ z :: u)
  case none => rfl
  case some x =>
    obtain ⟨a', t⟩ := x
    obtain ⟨w', he, hz, hr'⟩ := h _ _ _ hs
    -- What has been read ends before the character that was put in.
    obtain ⟨v, rfl, hv⟩ | ⟨v, rfl, -⟩ := List.append_eq_append_iff.mp he
    case inl =>
      cases v
      case nil =>
        rw [List.append_nil] at hr'
        cases hr'.unique hr
      case cons =>
        rw [(List.cons.inj hv).1] at hz
        exact absurd (List.mem_append_right _ List.mem_cons_self) hz
    case inr =>
      rw [List.append_assoc] at hr
      simpa using hr'.unique hr

end Prompt

end Reader
