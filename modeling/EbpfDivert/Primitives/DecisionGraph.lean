import Mathlib.Logic.Basic

-- Decision graphs: every node asks one yes/no question and each answer leads to another node or to
-- a verdict. `Accepts` follows the answers of one concrete point, who need not have an answer to
-- every question, `Leads` follows both answers at once with abstract elements that stand for sets of
-- points.
namespace DecisionGraph

inductive Target
  | accept
  | reject
  | node (n : Nat)

end DecisionGraph

structure DecisionGraph (ι : Type) where
  node : Nat → Option ι
  next : ι → Bool → DecisionGraph.Target

namespace DecisionGraph

variable {ι α : Type} (g : DecisionGraph ι)

inductive Accepts (answer : ι → Option Bool) : Nat → Prop
  | leaf {n i b} :
    (g.node n = some i) → (answer i = some b) → (g.next i b = .accept) → Accepts answer n
  | step {n i b m} :
    (g.node n = some i) → (answer i = some b) → (g.next i b = .node m) → (Accepts answer m) →
    Accepts answer n

-- The nodes that a point is asked at, starting in `n₀`.
inductive Visits (answer : ι → Option Bool) (n₀ : Nat) : Nat → Prop
  | refl : Visits answer n₀ n₀
  | step {n i b m} :
    (Visits answer n₀ n) → (g.node n = some i) → (answer i = some b) → (g.next i b = .node m) →
    Visits answer n₀ m

-- The pairs of node and element that a refinement of `c₀` can arrive at, starting in `n₀`.
inductive Reaches (branch : ι → Bool → α → List α) (n₀ : Nat) (c₀ : α) : Nat → α → Prop
  | refl : Reaches branch n₀ c₀ n₀ c₀
  | step {n c i b m c'} :
    (Reaches branch n₀ c₀ n c) → (g.node n = some i) → (c' ∈ branch i b c) →
    (g.next i b = .node m) → Reaches branch n₀ c₀ m c'

inductive Leads (branch : ι → Bool → α → List α) : Nat → α → α → Prop
  | leaf {n i b c d} :
    (g.node n = some i) → (d ∈ branch i b c) → (g.next i b = .accept) → Leads branch n c d
  | step {n i b m c c' d} :
    (g.node n = some i) → (c' ∈ branch i b c) → (g.next i b = .node m) → (Leads branch m c' d) →
    Leads branch n c d

variable {g} {answer : ι → Option Bool} {branch : ι → Bool → α → List α} {n n₀ m : Nat} {c c₀ d : α}

theorem leads_iff : g.Leads branch n c d ↔ ∃ i, g.node n = some i ∧ ∃ b, ∃ c' ∈ branch i b c,
    (g.next i b = .accept ∧ d = c') ∨ ∃ m, g.next i b = .node m ∧ g.Leads branch m c' d where
  mp
    | .leaf hn hd hx   => ⟨_, hn, _, _, hd, .inl ⟨hx, rfl⟩⟩
    | .step hn hc hx h => ⟨_, hn, _, _, hc, .inr ⟨_, hx, h⟩⟩
  mpr
    | ⟨_, hn, _, _, hc, .inl ⟨hx, rfl⟩⟩   => .leaf hn hc hx
    | ⟨_, hn, _, _, hc, .inr ⟨_, hx, h⟩⟩ => .step hn hc hx h

theorem Visits.cons {i : ι} {b : Bool} (hn : g.node n₀ = some i) (ha : answer i = some b)
    (hx : g.next i b = .node m) (h : g.Visits answer m n) : g.Visits answer n₀ n := by
  induction h
  case refl             => exact .step .refl hn ha hx
  case step hn ha hx ih => exact ih.step hn ha hx

theorem Visits.head (h : g.Visits answer n₀ n) : n = n₀ ∨ ∃ i b m, g.node n₀ = some i ∧
    answer i = some b ∧ g.next i b = .node m ∧ g.Visits answer m n := by
  induction h
  case refl => exact .inl rfl
  case step hn ha hx ih =>
    rcases ih with rfl | ⟨i, b, m, hn₀, ha₀, hx₀, hv⟩
    case inl => exact .inr ⟨_, _, _, hn, ha, hx, .refl⟩
    case inr => exact .inr ⟨i, b, m, hn₀, ha₀, hx₀, hv.step hn ha hx⟩

variable (g) in
-- Two points that the graph cannot tell apart: the second one answers like the first one wherever
-- the first one is asked.
def Alike (answer answer' : ι → Option Bool) (n₀ : Nat) : Prop :=
  ∀ ⦃n i⦄, g.Visits answer n₀ n → g.node n = some i → answer' i = answer i

theorem alike_iff {answer' : ι → Option Bool} {i : ι} {b : Bool} (hn : g.node n = some i)
    (ha : answer i = some b) : g.Alike answer answer' n ↔
      answer' i = some b ∧ ∀ m, g.next i b = .node m → g.Alike answer answer' m := by
  constructor
  case mp =>
    intro h
    exact ⟨(h .refl hn).trans ha, fun m hx _ _ hv hn' => h (hv.cons hn ha hx) hn'⟩
  case mpr =>
    rintro ⟨ha', h⟩ n' i' hv hn'
    rcases hv.head with rfl | ⟨j, b', m, hj, hb, hx, hv⟩
    case inl =>
      obtain rfl := Option.some.inj (hn.symm.trans hn')
      exact ha'.trans ha.symm
    case inr =>
      obtain rfl := Option.some.inj (hn.symm.trans hj)
      obtain rfl := Option.some.inj (ha.symm.trans hb)
      exact h m hx hv hn'

-- Only the answers at the nodes that are visited matter.
theorem Alike.accepts_iff {answer' : ι → Option Bool} (ha : g.Alike answer answer' n) :
    g.Accepts answer' n ↔ g.Accepts answer n := by
  constructor <;> intro h <;> induction h
  case mp.leaf hn hb hx      => exact .leaf hn (ha .refl hn ▸ hb) hx
  case mpr.leaf hn hb hx     => exact .leaf hn ((ha .refl hn).trans hb) hx
  case mp.step hn hb hx _ ih =>
    have hb' := ha .refl hn ▸ hb
    exact .step hn hb' hx (ih (((alike_iff hn hb').mp ha).right _ hx))
  case mpr.step hn hb hx _ ih =>
    have ⟨hb', ha⟩ := (alike_iff hn hb).mp ha
    exact .step hn hb' hx (ih (ha _ hx))

theorem accepts_iff : g.Accepts answer n ↔ ∃ i b, g.node n = some i ∧ answer i = some b ∧
    (g.next i b = .accept ∨ ∃ m, g.next i b = .node m ∧ g.Accepts answer m) where
  mp
    | .leaf hn ha hx   => ⟨_, _, hn, ha, .inl hx⟩
    | .step hn ha hx h => ⟨_, _, hn, ha, .inr ⟨_, hx, h⟩⟩
  mpr
    | ⟨_, _, hn, ha, .inl hx⟩          => .leaf hn ha hx
    | ⟨_, _, hn, ha, .inr ⟨_, hx, h⟩⟩ => .step hn ha hx h

theorem Accepts.of_visits (h : g.Accepts answer n₀) (hv : g.Visits answer n₀ n) :
    g.Accepts answer n := by
  induction hv
  case refl => exact h
  case step hn ha hx ih =>
    obtain ⟨i, b, hn', ha', h⟩ := accepts_iff.mp ih
    obtain rfl := Option.some.inj (hn.symm.trans hn')
    obtain rfl := Option.some.inj (ha.symm.trans ha')
    rcases h with hx' | ⟨m, hx', h⟩
    case inl => exact nomatch hx.symm.trans hx'
    case inr => exact Target.node.inj (hx'.symm.trans hx) ▸ h

-- A point that is accepted has an answer to everything it is asked.
theorem Accepts.isSome_of_visits {i : ι} (h : g.Accepts answer n₀) (hv : g.Visits answer n₀ n)
    (hn : g.node n = some i) : (answer i).isSome := by
  obtain ⟨i', b, hn', ha, _⟩ := accepts_iff.mp (h.of_visits hv)
  obtain rfl := Option.some.inj (hn.symm.trans hn')
  simp [ha]

-- Soundness rule: when refinement by the given answer never loses the point, the point ends up in
-- one of the elements that lead to acceptance. `inv` holds wherever the point is asked, `post` of
-- all elements it is in on the way.
theorem Accepts.leads (inv : Nat → α → Prop) {post : α → Prop}
    (step : ∀ {n i b c}, inv n c → g.node n = some i → answer i = some b →
      ∃ c' ∈ branch i b c, post c' ∧ ∀ m, g.next i b = .node m → inv m c')
    (h : g.Accepts answer n) (hi : inv n c) : ∃ d, g.Leads branch n c d ∧ post d := by
  induction h generalizing c
  case leaf hn ha hx =>
    have ⟨d, hd, hp, _⟩ := step hi hn ha
    exact ⟨d, .leaf hn hd hx, hp⟩
  case step hn ha hx _ ih =>
    have ⟨c', hc, _, hi⟩ := step hi hn ha
    have ⟨d, hd, hp⟩ := ih (hi _ hx)
    exact ⟨d, .step hn hc hx hd, hp⟩

-- Exactness rule: when a point of a refined element was in the element before and gave the answer
-- the refinement stands for, every point of an accepting element is accepted.
theorem Leads.accepts (mem : α → Prop)
    (exact : ∀ {n i b c c'}, g.node n = some i → c' ∈ branch i b c → mem c' →
      mem c ∧ answer i = some b)
    (h : g.Leads branch n c d) (hm : mem d) : mem c ∧ g.Accepts answer n := by
  induction h
  case leaf hn hd hx =>
    have ⟨hm, ha⟩ := exact hn hd hm
    exact ⟨hm, .leaf hn ha hx⟩
  case step hn hc hx _ ih =>
    have ⟨hm', h⟩ := ih hm
    have ⟨hm, ha⟩ := exact hn hc hm'
    exact ⟨hm, .step hn ha hx h⟩

-- Of two points that are both in the element at the beginning and one of which is in an accepting
-- element, the other is in it as well if it cannot be told apart, and only then. `joint` says that
-- the refinement does not separate points that give the same answer.
theorem Leads.mem_iff (mem mem' : α → Prop) {answer' : ι → Option Bool}
    (exact : ∀ {n i b c c'}, g.node n = some i → c' ∈ branch i b c → mem c' →
      mem c ∧ answer i = some b)
    (exact' : ∀ {n i b c c'}, g.node n = some i → c' ∈ branch i b c → mem' c' →
      mem' c ∧ answer' i = some b)
    (joint : ∀ {n i b c c'}, g.node n = some i → c' ∈ branch i b c → mem c' → mem' c →
      answer' i = some b → mem' c')
    (h : g.Leads branch n c d) (hm : mem d) (hm' : mem' c) :
    mem' d ↔ g.Alike answer answer' n := by
  induction h
  case leaf hn hd hx =>
    rw [alike_iff hn (exact hn hd hm).right]
    refine ⟨fun h => ⟨(exact' hn hd h).right, by simp [hx]⟩, fun h => joint hn hd hm hm' h.left⟩
  case step hn hc hx h ih =>
    have hc' := (h.accepts mem exact hm).left
    rw [alike_iff hn (exact hn hc hc').right]
    constructor
    case mp =>
      intro hd
      have hc'' := (h.accepts mem' exact' hd).left
      refine ⟨(exact' hn hc hc'').right, fun m hx' => ?_⟩
      obtain rfl := Target.node.inj (hx.symm.trans hx')
      exact (ih hm hc'').mp hd
    case mpr =>
      rintro ⟨ha, h⟩
      exact (ih hm (joint hn hc hc' hm' ha)).mpr (h _ hx)

-- An invariant of the elements, read off where an element is accepted.
theorem Leads.last (inv : Nat → α → Prop) {post : α → Prop}
    (pres : ∀ {n i b c c' m}, inv n c → g.node n = some i → c' ∈ branch i b c →
      g.next i b = .node m → inv m c')
    (last : ∀ {n i b c d}, inv n c → g.node n = some i → d ∈ branch i b c → post d)
    (h : g.Leads branch n c d) (hi : inv n c) : post d := by
  induction h
  case leaf hn hd _       => exact last hi hn hd
  case step hn hc hx _ ih => exact ih (pres hi hn hc hx)

end DecisionGraph
