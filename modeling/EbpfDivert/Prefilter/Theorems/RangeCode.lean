import EbpfDivert.Prefilter.Lower

namespace Prefilter

-- `sel` holds wherever `mem` does and, if `exact` is set, nowhere else.
structure Covers (exact mem sel : Prop) : Prop where
  sound : mem → sel
  exact : exact → sel → mem

namespace Covers

variable {e e₁ e₂ m s m₁ s₁ m₂ s₂ : Prop}

theorem of_iff (h : m ↔ s) : Covers e m s :=
  ⟨h.mp, fun _ => h.mpr⟩

theorem and (h₁ : Covers e₁ m₁ s₁) (h₂ : Covers e₂ m₂ s₂) :
    Covers (e₁ ∧ e₂) (m₁ ∧ m₂) (s₁ ∧ s₂) where
  sound    := And.imp h₁.sound h₂.sound
  exact he := And.imp (h₁.exact he.left) (h₂.exact he.right)

theorem mono (h : Covers e m s) (he : e₁ → e) : Covers e₁ m s :=
  ⟨h.sound, fun e => h.exact (he e)⟩

theorem congr (h : Covers e m s) (hm : m₁ ↔ m) (hs : s₁ ↔ s) : Covers e m₁ s₁ where
  sound hm'   := hs.mpr <| h.sound <| hm.mp hm'
  exact e hs' := hm.mpr <| h.exact e <| hs.mp hs'

end Covers

namespace RangeCode

variable {w n max lo hi : Nat} {code : RangeCode w} {r : Range max} {v : BitVec n} {a i e : Bool}

-- What a rule with this range accepts. Rules may store the bounds in a narrower field.
def Selects (r : RangeCode w) (v : BitVec n) : Prop :=
  r.active → ((r.first.setWidth n ≤ v ∧ v ≤ r.last.setWidth n) ↔ r.invert = false)

-- The same for a field that a rule only compares with one value.
def SelectsPoint (r : RangeCode w) (v : BitVec n) : Prop :=
  r.active → (v = r.first.setWidth n ↔ r.invert = false)

-- The ways to encode a range. An interval whose holes are dropped need not be active.
inductive Encodes (max : Nat) (r : PfRange) : RangeCode w → Prop
  | all : r.isFull max → Encodes max r {}
  | interval : r.excl = [] → Encodes max r ⟨.ofNat w r.lo, .ofNat w r.hi, true, false, true⟩
  | hole {x : Nat} : r.excl = [x] → r.lo = 0 → r.hi = max →
    Encodes max r ⟨.ofNat w x, .ofNat w x, true, true, true⟩
  | widened {active : Bool} : Encodes max r ⟨.ofNat w r.lo, .ofNat w r.hi, active, false, false⟩

section Covers

variable (hw : max < 2 ^ w) (hn : max < 2 ^ n)
include hw hn

theorem selects_ofNat (hl : lo ≤ max) (hh : hi ≤ max) :
    Selects ⟨.ofNat w lo, .ofNat w hi, a, i, e⟩ v ↔
      (a → ((lo ≤ v.toNat ∧ v.toNat ≤ hi) ↔ i = false)) := by
  have (x : Nat) (hx : x ≤ max) : x % 2 ^ w % 2 ^ n = x := by
    rw [Nat.mod_eq_of_lt (by omega : x < 2 ^ w), Nat.mod_eq_of_lt (by omega)]
  simp only [Selects, BitVec.le_def, BitVec.toNat_setWidth, BitVec.toNat_ofNat, this lo hl, this hi hh]

theorem Encodes.covers (h : Encodes max r.data code) (hv : v.toNat ≤ max) :
    Covers code.exact (r.Mem v.toNat) (code.Selects v) := by
  have hlh := r.wf.le
  have hhi := r.wf.hi_le
  cases h
  case all hf =>
    simp only [PfRange.isFull, Bool.and_eq_true, beq_iff_eq, List.isEmpty_iff] at hf
    exact .of_iff (by simp [Selects, Range.Mem, PfRange.Mem, hf, hv])
  case interval he =>
    rw [selects_ofNat hw hn (by omega) hhi]
    exact .of_iff (by simp [Range.Mem, PfRange.Mem, he])
  case hole x he hl hh =>
    have hx := r.wf.inside x (by simp [he])
    rw [selects_ofNat hw hn (by omega) (by omega)]
    refine .of_iff ?_
    simp [Range.Mem, PfRange.Mem, he, hl, hh, hv]
    omega
  case widened =>
    rw [selects_ofNat hw hn (by omega) hhi]
    exact ⟨fun hm _ => by simp [hm.1, hm.2.1], by simp⟩

end Covers

theorem point_first (h : code.point.active) : code.point.first = code.point.last := by
  rw [point] at h ⊢
  split_ifs at h ⊢ with hp
  exact not_not.mp (not_and.mp hp h)

theorem covers_point {m : Prop} (h : Covers code.exact m (code.Selects v)) :
    Covers code.point.exact m (code.point.SelectsPoint v) := by
  have hs : code.point.SelectsPoint v ↔ code.point.Selects v := by
    refine imp_congr_right fun ha => iff_congr ?_ .rfl
    rw [← point_first ha, ← BitVec.toNat_inj, BitVec.le_def, BitVec.le_def]
    omega
  rw [hs, point]
  split_ifs
  case pos => exact ⟨fun _ => nofun, nofun⟩
  case neg => exact h

end RangeCode

variable {max : Nat} (r : PfRange)

theorem encodeRange_encodes : RangeCode.Encodes max r (encodeRange r max) := by
  rw [encodeRange]
  split_ifs with hf
  case pos => exact .all hf
  case neg =>
    split
    case _ he => exact .interval he
    case _ x rest he =>
      split_ifs with hx
      case pos => exact .hole (hx.1 ▸ he) hx.2.1 hx.2.2
      case neg => exact .widened

theorem encodeRange32_encodes : RangeCode.Encodes max r (encodeRange32 r max) := by
  rw [encodeRange32]
  split_ifs with hf
  case pos => exact .all hf
  case neg =>
    split
    case _ he => exact .interval he
    case _ x rest he =>
      split_ifs with hx
      case pos => exact .hole (hx.1 ▸ he) hx.2.1 hx.2.2
      case neg => exact .widened

end Prefilter
