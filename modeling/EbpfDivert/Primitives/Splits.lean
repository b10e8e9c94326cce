import EbpfDivert.Primitives.DecisionGraph
import Mathlib.Data.Option.Basic
import Mathlib.Tactic.SplitIfs

-- Splitting abstract elements that stand for sets of points, as the refinement of a decision graph
-- does. One point is fixed: `mem` says which elements it is in. An element that is not `exact` may
-- stand for more points than it should.
structure DecisionGraph.Splits {α : Type} (exact mem : α → Prop) (c : α) (φ : Prop) (cs : List α) : Prop where
  sound : mem c → φ → ∃ c' ∈ cs, mem c'
  exact : ∀ c' ∈ cs, exact c' → mem c' → exact c ∧ mem c ∧ φ

namespace DecisionGraph.Splits

variable {α : Type} {exact mem : α → Prop} {c c' : α} {cs ds : List α} {φ ψ : Prop}

theorem nil (h : ¬φ) : Splits exact mem c φ [] where
  sound _ hφ := absurd hφ h
  exact := by simp

theorem self (h : φ) : Splits exact mem c φ [c] where
  sound hm _ := ⟨c, by simp, hm⟩
  exact := by simp_all

theorem of_mem_iff (he : exact c' ↔ exact c) (h : mem c' ↔ mem c ∧ φ) :
    Splits exact mem c φ [c'] where
  sound hm hφ := ⟨c', by simp, h.mpr ⟨hm, hφ⟩⟩
  exact := by simp_all

theorem of_inexact (he : ¬exact c') (h : mem c → mem c') : Splits exact mem c φ [c'] where
  sound hm _ := ⟨c', by simp, h hm⟩
  exact := by simp [he]

theorem ite [Decidable ψ] (h : ψ ↔ φ) : Splits exact mem c φ (if ψ then [c] else []) := by
  split_ifs with hψ
  case pos => exact self (h.mp hψ)
  case neg => exact nil (mt h.mpr hψ)

theorem congr (h : Splits exact mem c φ cs) (hp : mem c → (φ ↔ ψ)) : Splits exact mem c ψ cs where
  sound hm hψ := h.sound hm ((hp hm).mpr hψ)
  exact c' hc he hm :=
    have ⟨he, hm, hφ⟩ := h.exact c' hc he hm
    ⟨he, hm, (hp hm).mp hφ⟩

theorem append (h₁ : Splits exact mem c φ cs) (h₂ : Splits exact mem c ψ ds) :
    Splits exact mem c (φ ∨ ψ) (cs ++ ds) where
  sound hm
    | .inl hφ =>
      have ⟨c', hc, hm⟩ := h₁.sound hm hφ
      ⟨c', List.mem_append_left _ hc, hm⟩
    | .inr hψ =>
      have ⟨c', hc, hm⟩ := h₂.sound hm hψ
      ⟨c', List.mem_append_right _ hc, hm⟩
  exact c' hc he hm :=
    match List.mem_append.mp hc with
    | .inl hc => (h₁.exact c' hc he hm).imp_right <| And.imp_right .inl
    | .inr hc => (h₂.exact c' hc he hm).imp_right <| And.imp_right .inr

theorem flatMap {f : α → List α} (h : Splits exact mem c φ cs)
    (hf : ∀ c' ∈ cs, Splits exact mem c' ψ (f c')) :
    Splits exact mem c (φ ∧ ψ) (cs.flatMap f) where
  sound hm := fun ⟨hφ, hψ⟩ =>
    have ⟨c', hc, hm⟩ := h.sound hm hφ
    have ⟨c'', hc', hm⟩ := (hf c' hc).sound hm hψ
    ⟨c'', List.mem_flatMap.mpr ⟨c', hc, hc'⟩, hm⟩
  exact c'' hc he hm :=
    have ⟨c', hc, hc'⟩ := List.mem_flatMap.mp hc
    have ⟨he, hm, hψ⟩ := (hf c' hc).exact c'' hc' he hm
    have ⟨he, hm, hφ⟩ := h.exact c' hc he hm
    ⟨he, hm, hφ, hψ⟩

-- Changing the elements that are left, at most to larger ones.
theorem map {f : α → α} (h : Splits exact mem c φ cs)
    (sound : ∀ c' ∈ cs, mem c → φ → mem c' → mem (f c'))
    (back : ∀ c' ∈ cs, exact (f c') → mem (f c') → exact c' ∧ mem c') :
    Splits exact mem c φ (cs.map f) where
  sound hm hφ :=
    have ⟨c', hc, hm'⟩ := h.sound hm hφ
    ⟨f c', List.mem_map_of_mem hc, sound c' hc hm hφ hm'⟩
  exact c'' hc he hm := by
    obtain ⟨c', hc', rfl⟩ := List.mem_map.mp hc
    have ⟨he, hm⟩ := back c' hc' he hm
    exact h.exact c' hc' he hm

-- Sequencing two steps that leave at most one element.
theorem bind {o : Option α} {f : α → Option α} (h : Splits exact mem c φ o.toList)
    (hf : ∀ c', o = some c' → Splits exact mem c' ψ (f c').toList) :
    Splits exact mem c (φ ∧ ψ) (o.bind f).toList := by
  cases o
  case none    => exact ⟨fun hm hφ => h.sound hm hφ.left, by simp⟩
  case some c' => simpa using h.flatMap (f := fun c => (f c).toList) (by simpa using hf c' rfl)

-- Replacing one component by a narrower one. `m` says that the point was in the old component,
-- `part` that it is in a new one. The flag is cleared if the new one is too large.
theorem component {β : Type} {o : Option (β × Bool)} {upd : β × Bool → α} {m : Prop}
    {part : β → Prop} (narrow : m → φ → ∃ r e, o = some (r, e) ∧ part r)
    (wide : ∀ {r}, o = some (r, true) → part r → m ∧ φ) (get : mem c → m)
    (set : ∀ {r e}, mem c → part r → mem (upd (r, e)))
    (back : ∀ {r e}, mem (upd (r, e)) → part r ∧ (m → mem c))
    (flag : ∀ r e, exact (upd (r, e)) → exact c ∧ e) : Splits exact mem c φ (o.map upd).toList where
  sound hm hφ :=
    have ⟨r, e, ho, hr⟩ := narrow (get hm) hφ
    ⟨upd (r, e), by simp [ho], set hm hr⟩
  exact c' hc he hm := by
    simp only [Option.mem_toList, Option.map_eq_some_iff] at hc
    obtain ⟨⟨r, e⟩, ho, rfl⟩ := hc
    obtain ⟨hce, rfl⟩ := flag r e he
    have ⟨hr, hb⟩ := back hm
    have ⟨hm, hφ⟩ := wide ho hr
    exact ⟨hce, hb hm, hφ⟩

-- Fixing one component, which is known to have another value already or not. `w` is what the point
-- has there.
theorem fix {β : Type} [DecidableEq β] {o : Option β} {v w : β} (he : exact c' ↔ exact c)
    (get : mem c → ∀ u ∈ o, u = w) (get' : mem c' → v = w) (set : mem c → w = v → mem c')
    (back : mem c' → (∀ u ∈ o, u = w) → mem c) :
    Splits exact mem c (w = v) (if o ≠ none ∧ o ≠ some v then none else some c').toList := by
  split_ifs with h
  case pos =>
    refine ⟨fun hm hw => absurd ?_ h.right, by simp⟩
    obtain ⟨u, hu⟩ := Option.ne_none_iff_exists'.mp h.left
    rw [hu, get hm u hu, hw]
  case neg =>
    refine of_mem_iff he ⟨fun hm => ⟨back hm fun u hu => ?_, (get' hm).symm⟩, fun hm => set hm.1 hm.2⟩
    have hv : o = some v := by
      by_contra hv
      exact h ⟨Option.ne_none_iff_exists'.mpr ⟨u, hu⟩, hv⟩
    exact (Option.some.inj (hu.symm.trans hv)).trans (get' hm)

end DecisionGraph.Splits

namespace DecisionGraph

variable {ι α : Type} {g : DecisionGraph ι} {answer : ι → Option Bool}
variable {branch : ι → Bool → α → List α} (exact mem : α → Prop) {c₀ d : α} {n₀ : Nat}

-- If every answer splits the elements, the point is accepted only if it ends up in an element that
-- leads to acceptance.
theorem Accepts.exists_leads (h : g.Accepts answer n₀) (hm : mem c₀)
    (hs : ∀ {n c i b}, g.node n = some i → answer i = some b →
      Splits exact mem c (answer i = some b) (branch i b c)) :
    ∃ d, g.Leads branch n₀ c₀ d ∧ mem d := by
  refine h.leads (fun _ => mem) (fun hm hn ha => ?_) hm
  have ⟨c', hc, hm⟩ := (hs hn ha).sound hm ha
  exact ⟨c', hc, hm, fun _ _ => hm⟩

-- Conversely, the point is accepted if it is in an exact element that leads to acceptance.
theorem Leads.accepts_of_exact (h : g.Leads branch n₀ c₀ d) (he : exact d) (hm : mem d)
    (hs : ∀ {n c i b}, g.node n = some i →
      Splits exact mem c (answer i = some b) (branch i b c)) : g.Accepts answer n₀ := by
  refine (h.accepts (fun c => exact c ∧ mem c) (fun hn hc h => ?_) ⟨he, hm⟩).right
  exact and_assoc.mpr <| (hs hn).exact _ hc h.left h.right

end DecisionGraph
