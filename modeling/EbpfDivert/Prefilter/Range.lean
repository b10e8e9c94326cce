import EbpfDivert.Wd.Test

open Wd (Test)

namespace Prefilter

def pfMaxExcl : Nat := 4

-- An inclusive interval on an unsigned value, minus a few excluded points.
structure PfRange where
  lo   : Nat
  hi   : Nat
  excl : List Nat
deriving DecidableEq

namespace PfRange

variable {r r' : PfRange} {lo hi max arg v : Nat} {xs : List Nat} {test : Test} {e ch ch' : Bool}

def full (max : Nat) : PfRange where
  lo   := 0
  hi   := max
  excl := []

def isFull (r : PfRange) (max : Nat) : Bool :=
  r.lo == 0 && r.hi == max && r.excl.isEmpty

def contains (r : PfRange) (v : Nat) : Bool :=
  r.lo ≤ v && v ≤ r.hi && !r.excl.contains v

-- One round of the loop in `range_normalize`, which removes the excluded points that are outside the
-- interval or on its edge. None means that the only remaining value is excluded, the flag says
-- whether an edge moved.
def normalizePass (lo hi : Nat) (changed : Bool) : List Nat → Option (PfRange × Bool)
  | []      => some (⟨lo, hi, []⟩, changed)
  | x :: xs =>
    if x < lo ∨ hi < x then normalizePass lo hi changed xs
    else if lo = hi then none
    else if x = lo then normalizePass (lo + 1) hi true xs
    else if x = hi then normalizePass lo (hi - 1) true xs
    else do
      let (r, changed) ← normalizePass lo hi changed xs
      some ({ r with excl := x :: r.excl }, changed)

def normalizeFrom : Nat → PfRange → PfRange
  | 0,        r => r
  | fuel + 1, r =>
    match normalizePass r.lo r.hi false r.excl with
    | none               => ⟨1, 0, []⟩
    | some (r', changed) => if changed then normalizeFrom fuel r' else r'

-- Every round but the last removes a point.
def normalize (r : PfRange) : PfRange :=
  normalizeFrom (r.excl.length + 1) r

def nonempty (r : PfRange) : Option (PfRange × Bool) :=
  if r.lo ≤ r.hi then some (r, true) else none

def clamp (r : PfRange) (lo hi : Nat) : PfRange :=
  { r with lo := if lo > r.lo then lo else r.lo, hi := if hi < r.hi then hi else r.hi }

def restrict (r : PfRange) (lo hi : Nat) : Option (PfRange × Bool) :=
  if (r.clamp lo hi).lo > (r.clamp lo hi).hi then none else nonempty (r.clamp lo hi).normalize

-- Intersect with `v <test> arg`. None if the result is empty, the flag is cleared when the
-- constraint had to be widened.
def apply (r : PfRange) (test : Test) (arg max : Nat) : Option (PfRange × Bool) :=
  if arg > max then
    match test with
    | .eq | .gt | .geq           => none
    | .neq | .lt | .leq | .other => some (r, true)
  else
    match test with
    | .eq    => r.restrict arg arg
    | .neq   =>
      if !r.contains arg then some (r, true)
      else if r.excl.length = pfMaxExcl then some (r, false)
      else nonempty { r with excl := r.excl ++ [arg] }.normalize
    | .lt    => if arg = 0 then none else r.restrict 0 (arg - 1)
    | .leq   => r.restrict 0 arg
    | .gt    => if arg = max then none else r.restrict (arg + 1) max
    | .geq   => r.restrict arg max
    | .other => some (r, false)

-- The set of values a range stands for.
def Mem (r : PfRange) (v : Nat) : Prop :=
  r.lo ≤ v ∧ v ≤ r.hi ∧ v ∉ r.excl

@[simp]
theorem contains_iff : r.contains v ↔ r.Mem v := by
  simp [contains, Mem, and_assoc]

-- What one round of normalization does to the interval `[lo, hi]` without `xs`.
structure Pass (lo hi : Nat) (ch : Bool) (xs : List Nat) (r : PfRange) (ch' : Bool) : Prop where
  le        : r.lo ≤ r.hi
  hi_le     : r.hi ≤ hi
  mem       : ∀ v, r.Mem v ↔ PfRange.Mem ⟨lo, hi, xs⟩ v
  sublist   : r.excl.Sublist xs
  unchanged : ch' = false → ch = false ∧ r.lo = lo ∧ r.hi = hi ∧ ∀ x ∈ r.excl, lo < x ∧ x < hi
  shorter   : ch' = true → ch = true ∨ r.excl.length < xs.length

-- A point is dropped if the rest of the round starts with an interval that does not have it.
theorem Pass.dropped {lo' hi' x : Nat} {ch₀ : Bool} (p : Pass lo' hi' ch₀ xs r ch') (hh : hi' ≤ hi)
    (hm : ∀ v, PfRange.Mem ⟨lo', hi', xs⟩ v ↔ PfRange.Mem ⟨lo, hi, x :: xs⟩ v)
    (hu : ch₀ = false → ch = false ∧ lo' = lo ∧ hi' = hi) : Pass lo hi ch (x :: xs) r ch' where
  le          := p.le
  hi_le       := p.hi_le.trans hh
  mem v       := (p.mem v).trans (hm v)
  sublist     := p.sublist.cons _
  unchanged h := by
    have ⟨h₀, h₁⟩ := p.unchanged h
    obtain ⟨hc, rfl, rfl⟩ := hu h₀
    exact ⟨hc, h₁⟩
  shorter _   := .inr <| Nat.lt_succ_of_le p.sublist.length_le

theorem normalizePass_some (hl : lo ≤ hi) (h : normalizePass lo hi ch xs = some (r, ch')) :
    Pass lo hi ch xs r ch' := by
  induction xs generalizing lo hi ch r ch' <;> simp only [normalizePass] at h
  case nil =>
    cases h
    exact {
      le := hl, hi_le := le_rfl, mem := fun _ => Iff.rfl, sublist := .slnil
      unchanged := by simp, shorter := by simp }
  case cons x xs ih =>
    split_ifs at h
    -- The point is outside the interval.
    case pos hx => exact (ih hl h).dropped le_rfl (fun v => by grind [Mem]) fun hc => ⟨hc, rfl, rfl⟩
    -- The point is on the lower edge.
    case pos hx hn hx' => exact (ih (by omega) h).dropped le_rfl (fun v => by grind [Mem]) (by simp)
    -- The point is on the upper edge.
    case pos hx hn _ hx' =>
      exact (ih (by omega) h).dropped (Nat.sub_le _ _) (fun v => by grind [Mem]) (by simp)
    -- The point stays.
    case neg hx hn hl' hh' =>
      simp only [Option.bind_eq_bind, Option.bind_eq_some_iff, Option.some.injEq, Prod.mk.injEq] at h
      obtain ⟨⟨r', c⟩, h, rfl, rfl⟩ := h
      have p := ih hl h
      exact { p with
        mem       := fun v => by have := p.mem v; grind [Mem]
        sublist   := p.sublist.cons_cons _
        unchanged := fun hc => by
          have ⟨h₁, h₂, h₃, h₄⟩ := p.unchanged hc
          refine ⟨h₁, h₂, h₃, ?_⟩
          simp only [List.mem_cons, forall_eq_or_imp]
          exact ⟨by omega, h₄⟩
        shorter   := fun hc => (p.shorter hc).imp id Nat.succ_lt_succ }

theorem normalizePass_none (hl : lo ≤ hi) (h : normalizePass lo hi ch xs = none) :
    ¬PfRange.Mem ⟨lo, hi, xs⟩ v := by
  induction xs generalizing lo hi ch <;> simp only [normalizePass] at h
  case nil => nomatch h
  case cons x xs ih =>
    split_ifs at h
    case pos     => have := ih hl h; grind [Mem]
    case pos     => grind [Mem]
    case pos     => have := ih (by omega) h; grind [Mem]
    case pos     => have := ih (by omega) h; grind [Mem]
    case neg     =>
      simp only [Option.bind_eq_bind, Option.bind_eq_none_iff] at h
      have hp : normalizePass lo hi ch xs = none := by
        cases hp : normalizePass lo hi ch xs <;> simp_all
      have := ih hl hp
      grind [Mem]

-- The invariant of the ranges that the lowering keeps.
structure WF (r : PfRange) (max : Nat) : Prop where
  le     : r.lo ≤ r.hi
  hi_le  : r.hi ≤ max
  few    : r.excl.length ≤ pfMaxExcl
  nodup  : r.excl.Nodup
  inside : ∀ x ∈ r.excl, r.lo < x ∧ x < r.hi

theorem WF.full (max : Nat) : (full max).WF max := by
  constructor <;> simp [PfRange.full, pfMaxExcl]

-- Normalization keeps the set and, unless the set is empty, establishes the invariant.
theorem normalizeFrom_spec {fuel : Nat} (hf : r.excl.length < fuel) (hl : r.lo ≤ r.hi)
    (hm : r.hi ≤ max) (few : r.excl.length ≤ pfMaxExcl) (nodup : r.excl.Nodup) :
    ((normalizeFrom fuel r).lo ≤ (normalizeFrom fuel r).hi → (normalizeFrom fuel r).WF max) ∧
    ∀ v, (normalizeFrom fuel r).Mem v ↔ r.Mem v := by
  induction fuel generalizing r <;> simp only [normalizeFrom]
  case zero => contradiction
  case succ fuel ih =>
    cases hp : normalizePass r.lo r.hi false r.excl
    case none =>
      refine ⟨by simp, fun v => iff_of_false (by simp [Mem]; omega) (normalizePass_none hl hp)⟩
    case some res =>
      obtain ⟨r', changed⟩ := res
      have p := normalizePass_some hl hp
      have few' := p.sublist.length_le.trans few
      have nodup' := p.sublist.nodup nodup
      cases changed
      case false =>
        have ⟨_, hlo, hhi, inside⟩ := p.unchanged rfl
        exact ⟨fun _ => ⟨p.le, p.hi_le.trans hm, few', nodup', hlo ▸ hhi ▸ inside⟩, p.mem⟩
      case true =>
        have hs : r'.excl.length < r.excl.length := (p.shorter rfl).resolve_left nofun
        have ⟨wf, mem⟩ := ih (by omega) p.le (p.hi_le.trans hm) few' nodup'
        exact ⟨wf, fun v => (mem v).trans (p.mem v)⟩

-- The outcome of intersecting a range with a set: none only if nothing is left, otherwise a range
-- that loses no value of the intersection and, unless it was widened, has no other values.
def Narrows (r : PfRange) (max : Nat) (p : Nat → Prop) : Option (PfRange × Bool) → Prop
  | none         => ∀ v ≤ max, r.Mem v → ¬p v
  | some (r', e) =>
    r'.WF max ∧ (∀ v ≤ max, r.Mem v → p v → r'.Mem v) ∧ (e → ∀ v ≤ max, r'.Mem v → r.Mem v ∧ p v)

theorem Narrows.normalize {p : Nat → Prop} (hl : r'.lo ≤ r'.hi) (hm : r'.hi ≤ max)
    (few : r'.excl.length ≤ pfMaxExcl) (nodup : r'.excl.Nodup)
    (mem : ∀ v ≤ max, r'.Mem v ↔ r.Mem v ∧ p v) : r.Narrows max p (nonempty r'.normalize) := by
  have ⟨wf, mem'⟩ := normalizeFrom_spec (Nat.lt_add_one _) hl hm few nodup
  rw [nonempty, PfRange.normalize]
  split_ifs with h
  case pos =>
    refine ⟨wf h, fun v hv hr hp => ?_, fun _ v hv hr => ?_⟩
    · exact (mem' v).mpr <| (mem v hv).mpr ⟨hr, hp⟩
    · exact (mem v hv).mp <| (mem' v).mp hr
  case neg =>
    intro v hv hr hp
    have ⟨_, _, _⟩ := (mem' v).mpr <| (mem v hv).mpr ⟨hr, hp⟩
    omega

theorem clamp_mem : (r.clamp lo hi).Mem v ↔ r.Mem v ∧ lo ≤ v ∧ v ≤ hi := by
  simp only [Mem, clamp]
  grind

theorem restrict_narrows (wf : r.WF max) {p : Nat → Prop} (hp : ∀ v ≤ max, p v ↔ lo ≤ v ∧ v ≤ hi) :
    r.Narrows max p (r.restrict lo hi) := by
  have mem : ∀ v ≤ max, (r.clamp lo hi).Mem v ↔ r.Mem v ∧ p v :=
    fun v hv => by rw [clamp_mem, hp v hv]
  rw [restrict]
  split_ifs with h
  case pos =>
    intro v hv hr hp
    have ⟨_, _, _⟩ := (mem v hv).mpr ⟨hr, hp⟩
    omega
  case neg =>
    refine .normalize (Nat.le_of_not_lt h) ?_ wf.few wf.nodup mem
    have := wf.hi_le
    simp only [clamp]
    split_ifs <;> omega

theorem Narrows.refl {p : Nat → Prop} (wf : r.WF max) (hp : ∀ v ≤ max, r.Mem v → p v) :
    r.Narrows max p (some (r, true)) :=
  ⟨wf, fun _ _ hr _ => hr, fun _ v hv hr => ⟨hr, hp v hv hr⟩⟩

theorem Narrows.widen {p : Nat → Prop} (wf : r.WF max) : r.Narrows max p (some (r, false)) :=
  ⟨wf, fun _ _ hr _ => hr, nofun⟩

theorem apply_narrows (wf : r.WF max) (arg : Nat) (ht : test ≠ .other) :
    r.Narrows max (test.Sat · arg) (r.apply test arg max) := by
  by_cases h : arg > max
  case pos =>
    cases test <;> simp only [apply, h, ↓reduceIte]
    case eq | gt | geq  => intro v hv _; simp only [Test.Sat]; omega
    case neq | lt | leq => exact .refl wf fun v hv _ => by simp only [Test.Sat]; omega
    case other          => contradiction
  case neg =>
    cases test <;> simp only [apply, h, ↓reduceIte, Test.Sat]
    case eq    => exact restrict_narrows wf fun v _ => by omega
    case leq   => exact restrict_narrows wf fun v _ => by omega
    case geq   => exact restrict_narrows wf fun v _ => by omega
    case other => contradiction
    case lt =>
      split_ifs
      case pos => intro v _ _; omega
      case neg => exact restrict_narrows wf fun v _ => by omega
    case gt =>
      split_ifs
      case pos => intro v _ _; omega
      case neg => exact restrict_narrows wf fun v _ => by omega
    case neq =>
      split_ifs with hc hn
      case pos =>
        refine .refl wf fun v _ hv => ?_
        rintro rfl
        simp [contains_iff.mpr hv] at hc
      case pos => exact .widen wf
      case neg =>
        have hc : r.Mem arg := by simpa using hc
        refine .normalize wf.le wf.hi_le ?_ ?_ ?_
        · have := wf.few
          simp only [List.length_append, List.length_singleton]
          omega
        · exact List.nodup_append.mpr ⟨wf.nodup, by simp, by have := hc.2.2; grind⟩
        · intro v _
          simp only [Mem, List.mem_append, List.mem_singleton]
          grind

theorem apply_wf (wf : r.WF max) (h : r.apply test arg max = some (r', e)) : r'.WF max := by
  by_cases ht : test = .other
  case pos =>
    subst ht
    simp only [apply] at h
    split_ifs at h <;> cases h <;> exact wf
  case neg =>
    have := apply_narrows wf arg ht
    rw [h] at this
    exact this.left

-- An equality test never widens.
theorem apply_eq_exact (h : r.apply .eq arg max = some (r', e)) : e = true := by
  simp only [apply, restrict, nonempty] at h
  split_ifs at h
  simp_all

end PfRange

-- A range of values up to `max` that satisfies the invariant.
structure Range (max : Nat) where
  data : PfRange
  wf   : data.WF max
deriving DecidableEq

namespace Range

variable {max arg v : Nat} {r r' : Range max} {test : Test} {e : Bool}

def full (max : Nat) : Range max :=
  ⟨.full max, .full max⟩

def apply (r : Range max) (test : Test) (arg : Nat) : Option (Range max × Bool) :=
  (r.data.apply test arg max).pmap (fun (d, e) h => (⟨d, h⟩, e)) fun _ h => PfRange.apply_wf r.wf h

def Mem (r : Range max) (v : Nat) : Prop :=
  r.data.Mem v

theorem Mem.le_max (h : r.Mem v) : v ≤ max :=
  h.2.1.trans r.wf.hi_le

@[simp]
theorem mem_full : (full max).Mem v ↔ v ≤ max := by
  simp [Mem, full, PfRange.full, PfRange.Mem]

theorem apply_eq_some : r.apply test arg = some (r', e) ↔
    r.data.apply test arg max = some (r'.data, e) := by
  simp only [apply, Option.pmap_eq_some_iff]
  constructor
  case mp =>
    rintro ⟨_, _, h, rfl, rfl⟩
    exact h
  case mpr => exact fun h => ⟨_, r'.wf, h, rfl⟩

theorem exists_apply (hv : r.Mem v) (ht : test.Sat v arg) :
    ∃ r' e, r.apply test arg = some (r', e) ∧ r'.Mem v := by
  have hn := PfRange.apply_narrows r.wf arg fun h : test = .other => by subst h; exact ht
  cases ha : r.data.apply test arg max <;> rw [ha] at hn
  case none     => exact absurd ht <| hn v hv.le_max hv
  case some res => exact ⟨⟨res.1, hn.1⟩, res.2, apply_eq_some.mpr ha, hn.2.1 v hv.le_max hv ht⟩

theorem of_apply (h : r.apply test arg = some (r', true)) (ht : test ≠ .other) (hv : r'.Mem v) :
    r.Mem v ∧ test.Sat v arg := by
  have hn := PfRange.apply_narrows r.wf arg ht
  rw [apply_eq_some.mp h] at hn
  exact hn.2.2 rfl v hv.le_max hv

theorem apply_eq_exact (h : r.apply .eq arg = some (r', e)) : e = true :=
  PfRange.apply_eq_exact <| apply_eq_some.mp h

theorem lo_mem (r : Range max) : r.Mem r.data.lo :=
  ⟨le_rfl, r.wf.le, fun h => lt_irrefl _ (r.wf.inside _ h).left⟩

theorem hi_mem (r : Range max) : r.Mem r.data.hi :=
  ⟨r.wf.le, le_rfl, fun h => lt_irrefl _ (r.wf.inside _ h).right⟩

-- What an equality test leaves is a single value.
theorem apply_eq_point (h : r.apply .eq arg = some (r', e)) : r'.data.lo = arg ∧ r'.data.hi = arg := by
  obtain rfl := apply_eq_exact h
  exact ⟨(of_apply h nofun r'.lo_mem).right, (of_apply h nofun r'.hi_mem).right⟩

end Range

end Prefilter
