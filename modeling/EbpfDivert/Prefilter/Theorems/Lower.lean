import EbpfDivert.Prefilter.Theorems.Emit
import EbpfDivert.Prefilter.Theorems.Family
import EbpfDivert.Prefilter.Theorems.Walk

open Wd (Insn)
open Shared

namespace Prefilter

variable {p : PfPkt} {x : Wd.Input} {object : List Insn} {c : Cube} {cs : List Cube}
variable {out out' : PfResult}

-- What a list of cubes adds to the tables.
structure Emitted (cs : List Cube) (out out' : PfResult) : Prop where
  v4    : ∀ r, r ∈ out'.v4 ↔ r ∈ out.v4 ∨ ∃ c ∈ cs, c.ver ≠ some .v6 ∧ r = (emitV4 c).1
  v6    : ∀ r, r ∈ out'.v6 ↔ r ∈ out.v6 ∨ ∃ c ∈ cs, c.ver ≠ some .v4 ∧ r = (emitV6 c).1
  exact : out'.exact → out.exact ∧ ∀ c ∈ cs, c.exact ∧ (c.ver ≠ some .v6 → (emitV4 c).2) ∧
    (c.ver ≠ some .v4 → (emitV6 c).2)

theorem PfResult.addV4_eq_some (h : out.addV4 c = some out') : out'.v6 = out.v6 ∧
    (∀ r, r ∈ out'.v4 ↔ r ∈ out.v4 ∨ c.ver ≠ some .v6 ∧ r = (emitV4 c).1) ∧
    (out'.exact → out.exact ∧ (c.ver ≠ some .v6 → (emitV4 c).2)) := by
  obtain ⟨hv, rfl⟩ | ⟨hv, _, rfl⟩ := addV4_cases h
  case inl => simp [hv]
  case inr => simp [hv]

theorem PfResult.addV6_eq_some (h : out.addV6 c = some out') : out'.v4 = out.v4 ∧
    (∀ r, r ∈ out'.v6 ↔ r ∈ out.v6 ∨ c.ver ≠ some .v4 ∧ r = (emitV6 c).1) ∧
    (out'.exact → out.exact ∧ (c.ver ≠ some .v4 → (emitV6 c).2)) := by
  obtain ⟨hv, rfl⟩ | ⟨hv, _, rfl⟩ := addV6_cases h
  case inl => simp [hv]
  case inr => simp [hv]

theorem Emitted.cons {mid₁ mid₂ : PfResult}
    (h₁ : PfResult.addV4 { out with exact := out.exact && c.exact } c = some mid₁)
    (h₂ : mid₁.addV6 c = some mid₂) (h : Emitted cs mid₂ out') : Emitted (c :: cs) out out' := by
  have ⟨h6₁, h4₁, he₁⟩ := PfResult.addV4_eq_some h₁
  have ⟨h4₂, h6₂, he₂⟩ := PfResult.addV6_eq_some h₂
  constructor
  case v4 =>
    intro r
    rw [h.v4, h4₂, h4₁]
    simp [or_assoc]
  case v6 =>
    intro r
    rw [h.v6, h6₂, h6₁]
    simp [or_assoc]
  case exact =>
    intro he
    have ⟨hm₂, hcs⟩ := h.exact he
    have ⟨hm₁, hv6⟩ := he₂ hm₂
    have ⟨ho, hv4⟩ := he₁ hm₁
    have ⟨ho, hc⟩ := Bool.and_eq_true_iff.mp ho
    exact ⟨ho, List.forall_mem_cons.mpr ⟨⟨hc, hv4, hv6⟩, hcs⟩⟩

theorem pfEmitRules_emitted (h : pfEmitRules cs out = some out') : Emitted cs out out' := by
  induction cs generalizing out
  case nil =>
    cases h
    constructor <;> simp
  case cons c cs ih =>
    simp only [pfEmitRules, Option.bind_eq_bind, Option.bind_eq_some_iff] at h
    obtain ⟨_, h₁, _, h₂, h⟩ := h
    exact .cons h₁ h₂ (ih h)

-- The lowering gives up.
def Overflows (object : List Insn) : Prop :=
  (pfWalkAll object false).overflow ∨ pfEmitRules (pfWalkAll object false).cubes .empty = none

instance : Decidable (Overflows object) :=
  inferInstanceAs (Decidable (_ ∨ _))

-- The outcome of the lowering: either everything is captured or there is one rule for each cube and
-- family.
inductive Lowered (object : List Insn) : PfResult → Prop
  | overflow (ho : Overflows object) : Lowered object .matchAll
  | rules {cs : List Cube} {out : PfResult} (ho : ¬Overflows object)
    (hc : ∀ c, c ∈ cs ↔ (Wd.graph object).Leads (pfBranch false) 0 .init c)
    (he : Emitted cs .empty out) : Lowered object out

theorem lowered (object : List Insn) : Lowered object (pfLowerObject object) := by
  rw [pfLowerObject]
  by_cases ho : (pfWalkAll object false).overflow
  case pos =>
    rw [if_pos ho]
    exact .overflow (.inl ho)
  case neg =>
    rw [if_neg ho]
    cases hr : pfEmitRules (pfWalkAll object false).cubes .empty
    case none   => exact .overflow (.inr hr)
    case some _ =>
      exact .rules (by simp [Overflows, ho, hr]) (fun _ => mem_pfWalkAll (by simpa using ho))
        (pfEmitRules_emitted hr)

theorem pfMatch_matchAll : pfMatch .matchAll p := by
  cases hv : p.ver <;> simp [pfMatch, hv, PfResult.matchAll, pfMatchRule, pfMatchCommon, clause, Flags.clause]

theorem pfMatch_of_overflows (h : Overflows object) : pfMatch (pfLowerObject object) p := by
  have hl := lowered object
  generalize pfLowerObject object = out at hl
  cases hl
  case overflow => exact pfMatch_matchAll
  case rules hn _ _ => exact absurd h hn

-- The rule of the packet's family, if the cube has one, matches the packet.
def Cube.Matches (c : Cube) (p : PfPkt) : Prop :=
  match p.ver with
  | .v4 => c.ver ≠ some .v6 ∧
    pfMatchRule maskedEq4 (p.src.word 0) (p.dst.word 0) p (emitV4 c).1
  | .v6 => c.ver ≠ some .v4 ∧ pfMatchRule maskedEq6 p.src.toNet16 p.dst.toNet16 p (emitV6 c).1

theorem Emitted.pfMatch_iff (h : Emitted cs .empty out) : pfMatch out p ↔ ∃ c ∈ cs, c.Matches p := by
  cases hv : p.ver <;> simp only [pfMatch, Cube.Matches, hv, List.any_eq_true, h.v4, h.v6,
    PfResult.empty, List.not_mem_nil, false_or] <;> grind

theorem Cube.Mem.matches (d : Describes p x) (hs : c.Spares p) (hm : c.Mem p) : c.Matches p := by
  have ⟨ha, hmem⟩ := Cube.mem_iff_anywhere.mp hm
  rw [Matches]
  split
  case _ hv =>
    have sel useSrc : (encodeAddr (c.addr useSrc)).Selects4 ((p.addr useSrc).word 0) :=
      encodeAddr_selects4 (hs hv useSrc) (Words.eq_mapped (d.mapped hv useSrc) ▸ hmem useSrc)
    refine ⟨fun h6 => ?_, (emit_covers hm.ver).sound ⟨ha, sel true, sel false⟩⟩
    exact absurd (hm.ver _ h6) (by simp [hv])
  case _ hv =>
    have sel useSrc : (encodeAddr (c.addr useSrc)).Selects6 (p.addr useSrc) :=
      (encodeAddr_covers6 _ _).sound (hmem useSrc)
    refine ⟨fun h4 => ?_, (emit_covers hm.ver).sound ⟨ha, sel true, sel false⟩⟩
    exact absurd (hm.ver _ h4) (by simp [hv])

-- A packet that the rule of an exactly encoded cube matches is in the cube, or would be with other
-- addresses that the rule mistakes its own for.
theorem Cube.Matches.exists_moved (d : Describes p x) (h : c.Matches p)
    (h4 : c.ver ≠ some .v6 → (emitV4 c).2) (h6 : c.ver ≠ some .v4 → (emitV6 c).2) :
    ∃ src dst, c.Mem (p.moved src dst) ∧ ∀ useSrc, (p.moved src dst).addr useSrc = p.addr useSrc ∨
      Mistaken p.ver {u | (c.addr useSrc).Mem u} (p.addr useSrc) := by
  have ⟨ha, hside⟩ : c.anywhere.Mem p ∧ ∀ useSrc, (c.addr useSrc).Mem (p.addr useSrc) ∨
      Mistaken p.ver {u | (c.addr useSrc).Mem u} (p.addr useSrc) := by
    rw [Matches] at h
    cases hv : p.ver <;> simp only [hv] at h
    case v4 =>
      have ⟨hc, he⟩ := emit_exact (h4 h.left)
      have hver : ∀ v ∈ c.ver, v = p.ver := fun v hm => by cases v <;> simp_all
      have ⟨ha, hs, hd⟩ := (emit_covers hver).exact hc h.right
      refine ⟨ha, fun useSrc => ?_⟩
      rw [Words.eq_mapped (d.mapped hv useSrc)]
      exact mem_of_selects4 (he useSrc) (by cases useSrc; exacts [hd, hs])
    case v6 =>
      have ⟨hc, he⟩ := emit_exact (h6 h.left)
      have hver : ∀ v ∈ c.ver, v = p.ver := fun v hm => by cases v <;> simp_all
      have ⟨ha, hs, hd⟩ := (emit_covers hver).exact hc h.right
      refine ⟨ha, fun useSrc => (mem_of_selects6 (he useSrc) ?_).imp_right And.right⟩
      cases useSrc; exacts [hd, hs]
  have choose useSrc : ∃ u, (c.addr useSrc).Mem u ∧ (u = p.addr useSrc ∨
      Mistaken p.ver {u | (c.addr useSrc).Mem u} (p.addr useSrc)) := by
    rcases hside useSrc with hm | hm
    case inl => exact ⟨_, hm, .inl rfl⟩
    case inr =>
      obtain ⟨u, hu⟩ := hm.nonempty
      exact ⟨u, hu, .inr hm⟩
  obtain ⟨src, hs, hs'⟩ := choose true
  obtain ⟨dst, hd, hd'⟩ := choose false
  refine ⟨src, dst, Cube.mem_iff_anywhere.mpr ⟨Cube.mem_anywhere_moved.mpr ha, fun useSrc => ?_⟩,
    fun useSrc => ?_⟩
  case refine_1 => cases useSrc; exacts [hd, hs]
  case refine_2 => cases useSrc; exacts [hd', hs']

-- The objects that the lowering is meant for.
structure Plain (object : List Insn) : Prop extends Wd.Proper object where
  test : ∀ insn ∈ object, insn.test ≠ .other
  neg  : ∀ insn ∈ object, insn.neg = false

instance : Decidable (Plain object) :=
  decidable_of_iff (Wd.Proper object ∧ (∀ insn ∈ object, insn.test ≠ .other) ∧
      ∀ insn ∈ object, insn.neg = false)
    ⟨fun ⟨h₁, h₂, h₃⟩ => ⟨h₁, h₂, h₃⟩, fun ⟨h₁, h₂, h₃⟩ => ⟨h₁, h₂, h₃⟩⟩

-- The objects that the deserializer accepts.
structure Serialized (object : List Insn) : Prop extends Wd.Proper object where
  test : ∀ insn ∈ object, insn.test ≠ .other

instance : Decidable (Serialized object) :=
  decidable_of_iff (Wd.Proper object ∧ ∀ insn ∈ object, insn.test ≠ .other)
    ⟨fun ⟨h₁, h₂⟩ => ⟨h₁, h₂⟩, fun ⟨h₁, h₂⟩ => ⟨h₁, h₂⟩⟩

-- The objects that the compiler makes of filter strings.
structure Compiled (object : List Insn) : Prop extends Wd.Proper object where
  test : ∀ insn ∈ object, insn.test ≠ .other
  neg  : ∀ insn ∈ object, insn.neg → mayBeNeg insn.field

instance : Decidable (Compiled object) :=
  decidable_of_iff (Wd.Proper object ∧ (∀ insn ∈ object, insn.test ≠ .other) ∧
      ∀ insn ∈ object, insn.neg → mayBeNeg insn.field)
    ⟨fun ⟨h₁, h₂, h₃⟩ => ⟨h₁, h₂, h₃⟩, fun ⟨h₁, h₂, h₃⟩ => ⟨h₁, h₂, h₃⟩⟩

theorem Plain.compiled (h : Plain object) : Compiled object :=
  { h with neg := fun insn hi hn => by simp [h.neg insn hi] at hn }

theorem Compiled.serialized (h : Compiled object) : Serialized object :=
  { h with }

-- Whether the filter has asked for the IP version, along the answers it gets.
def asked (answer : Insn → Option Bool) (insn : Insn) (b known : Bool) : List Bool :=
  if answer insn = some b then [known || settles insn b] else []

-- A test of some kind is reached by a packet with these answers. The kind may depend on whether the
-- filter has asked for the version before.
def Meets (object : List Insn) (answer : Insn → Option Bool) (kind : Insn → Bool → Prop) : Prop :=
  ∃ n known insn, (Wd.graph object).Reaches (asked answer) 0 false n known ∧
    object[n]? = some insn ∧ kind insn known

section

variable {answer : Insn → Option Bool}

theorem visits_of_asked {n : Nat} {known : Bool}
    (h : (Wd.graph object).Reaches (asked answer) 0 false n known) :
    (Wd.graph object).Visits answer 0 n := by
  induction h
  case refl => exact .refl
  case step hn hc hx ih =>
    rw [asked] at hc
    split_ifs at hc with ha
    case pos => exact ih.step hn ha hx
    case neg => exact absurd hc List.not_mem_nil

variable (ho : Serialized object) (d : Describes p x)
variable (hr : ∀ {n insn b}, (Wd.graph object).Visits answer 0 n → object[n]? = some insn →
  answer insn = some b → Reads p insn (answer insn))
include ho d hr

-- A packet that is accepted is in one of the cubes, unless a test is misguessed on the way. What its
-- rule excludes depends on the other tests.
theorem exists_leads (ok : ¬Meets object answer (Misguessed p))
    (h : (Wd.graph object).Accepts answer 0) :
    ∃ c, (Wd.graph object).Leads (pfBranch false) 0 .init c ∧ c.Mem p ∧
      (¬Meets object answer (Blotted p) → c.Spares p) := by
  refine h.leads (fun n c => (Wd.graph object).Reaches (asked answer) 0 false n c.ver.isSome ∧
    c.Mem p ∧ (¬Meets object answer (Blotted p) → c.Spares p)) ?_
    ⟨.refl, Cube.mem_init, fun _ _ useSrc => by cases useSrc <;> simp [Cube.addr, Cube.init, PfAddr.full]⟩
  rintro n insn b c ⟨hp, hm, hs⟩ hi ha
  have hi' := List.mem_of_getElem? hi
  have ht := ho.test insn hi'
  have hr := hr (visits_of_asked hp) hi ha
  have guess (hb : b) : EndpointOk p insn c := by
    intro l hf hv he
    have hn : insn.neg = false := by
      rw [← Bool.not_eq_true]
      exact fun hn => hr.endpoint l (.inl hf) hn (hb ▸ ha)
    have hsat := ((hr.addr l hf hn b).mp ha).mp hb
    rw [he, Wd.Test.Sat, Words.value_inj] at hsat
    cases h6 : p.ver
    case v4 => simp [← hsat, d.mapped h6]
    case v6 =>
      refine (if_neg fun hmap => ok ⟨n, _, insn, hp, hi, ?_⟩).symm
      exact ⟨hn, l, hf, by simp [hv], he, hmap, h6, hsat⟩
  obtain ⟨c', hc, hm'⟩ := (pfBranch_splits hr ht).sound hm ⟨ha, guess⟩
  have step := Step.of_pfBranch ht hc
  have hs' := fun hb => step.spares hm' (hs hb) fun h => hb ⟨n, _, insn, hp, hi, h⟩
  refine ⟨c', hc, ⟨hm', hs'⟩, fun m hx => ⟨?_, hm', hs'⟩⟩
  exact hp.step hi (by simp [asked, ha, step.known]) hx

theorem pfMatch_of_accepts
    (ok : Overflows object ∨ ¬Meets object answer fun insn known =>
      Misguessed p insn known ∨ Blotted p insn known)
    (h : (Wd.graph object).Accepts answer 0) : pfMatch (pfLowerObject object) p := by
  have hl := lowered object
  generalize pfLowerObject object = out at hl
  cases hl
  case overflow => exact pfMatch_matchAll
  case rules cs hn hc he =>
    have ok := ok.resolve_left hn
    have mono {kind : Insn → Bool → Prop}
        (hk : ∀ insn known, kind insn known → Misguessed p insn known ∨ Blotted p insn known) :
        ¬Meets object answer kind :=
      fun ⟨n, known, insn, hp, hi, h⟩ => ok ⟨n, known, insn, hp, hi, hk insn known h⟩
    obtain ⟨c, hl, hm, hs⟩ := exists_leads ho d hr (mono fun _ _ => .inl) h
    exact he.pfMatch_iff.mpr ⟨c, (hc c).mpr hl, hm.matches d (hs (mono fun _ _ => .inr))⟩

end

-- The packet with another address on one side.
def PfPkt.setAddr (p : PfPkt) (useSrc : Bool) (v : Words) : PfPkt :=
  if useSrc then p.moved v p.dst else p.moved p.src v

-- The addresses with which the filter cannot tell a packet from what it is.
def Twins (object : List Insn) (answer : PfPkt → Insn → Option Bool) (p : PfPkt) (useSrc : Bool) :
    Set Words :=
  {v | (Wd.graph object).Alike (answer p) (answer (p.setAddr useSrc v)) 0}

section

variable {answer : PfPkt → Insn → Option Bool} (ho : Serialized object)
variable (hr : ∀ src dst, ∀ insn ∈ object, Reads (p.moved src dst) insn (answer (p.moved src dst) insn))

theorem PfPkt.setAddr_eq (useSrc : Bool) (v : Words) :
    ∃ src dst, p.setAddr useSrc v = p.moved src dst ∧
      ∀ s, (p.moved src dst).addr s = if s = useSrc then v else p.addr s := by
  cases useSrc
  case false => exact ⟨p.src, v, rfl, fun s => by cases s <;> rfl⟩
  case true  => exact ⟨v, p.dst, rfl, fun s => by cases s <;> rfl⟩

include ho

-- A packet of an exact cube gave the answers that led to it.
theorem exact_of_pfBranch {answer : Insn → Option Bool} {insn : Insn} {n : Nat} {b : Bool} {c' : Cube}
    (hr : ∀ insn ∈ object, Reads p insn (answer insn)) (hi : (Wd.graph object).node n = some insn)
    (hc : c' ∈ pfBranch false insn b c) (h : c'.exact ∧ c'.Mem p) :
    (c.exact ∧ c.Mem p) ∧ answer insn = some b := by
  have hi := List.mem_of_getElem? hi
  have ⟨he, hm, ha, _⟩ := (pfBranch_splits (hr insn hi) (ho.test insn hi)).exact c' hc h.left h.right
  exact ⟨⟨he, hm⟩, ha⟩

theorem accepts_of_leads {answer : Insn → Option Bool} (hr : ∀ insn ∈ object, Reads p insn (answer insn))
    (h : (Wd.graph object).Leads (pfBranch false) 0 .init c) (he : c.exact) (hm : c.Mem p) :
    (Wd.graph object).Accepts answer 0 :=
  (h.accepts (fun c => c.exact ∧ c.Mem p) (exact_of_pfBranch ho hr) ⟨he, hm⟩).right

include hr

-- The addresses of an exact cube are those that the filter cannot tell apart.
theorem addr_eq_twins (h : (Wd.graph object).Leads (pfBranch false) 0 .init c) (he : c.exact)
    (hm : c.Mem p) (useSrc : Bool) : {u | (c.addr useSrc).Mem u} = Twins object answer p useSrc := by
  ext u
  obtain ⟨src, dst, hset, haddr⟩ := p.setAddr_eq useSrc u
  have hp : p.moved p.src p.dst = p := rfl
  have hr' := hr src dst
  have hmem : (c.addr useSrc).Mem u ↔ c.Mem (p.moved src dst) := by
    rw [Cube.mem_iff_anywhere, Cube.mem_anywhere_moved]
    have ⟨ha, hmem⟩ := Cube.mem_iff_anywhere.mp hm
    refine ⟨fun h => ⟨ha, fun s => ?_⟩, fun h => ?_⟩
    case refine_1 =>
      rw [haddr]
      split_ifs with hs
      case pos => exact hs ▸ h
      case neg => exact hmem s
    case refine_2 => simpa [haddr] using h.right useSrc
  have hiff := h.mem_iff (fun c => c.exact ∧ c.Mem p) (fun c => c.exact ∧ c.Mem (p.moved src dst))
    (exact_of_pfBranch ho (hp ▸ hr p.src p.dst)) (exact_of_pfBranch ho hr')
    (fun {n insn b c c'} hi hc hm hm' ha => ?_) ⟨he, hm⟩ ⟨rfl, Cube.mem_init⟩
  case refine_1 =>
    have hi := List.mem_of_getElem? hi
    exact ⟨hm.left, (Step.of_pfBranch (ho.test insn hi) hc).mem_moved (ho.test insn hi) hm.right
      hm'.right (ha ▸ hr' insn hi)⟩
  rw [and_iff_right he, ← hset] at hiff
  exact hmem.trans (hset ▸ hiff)

-- A packet that exact rules match is accepted, or would be with other addresses that the rules
-- mistake its own for.
theorem accepts_of_pfMatch (d : Describes p x) (hx : (pfLowerObject object).exact)
    (h : pfMatch (pfLowerObject object) p) : ∃ src dst,
    (Wd.graph object).Accepts (answer (p.moved src dst)) 0 ∧
    ∀ useSrc, (p.moved src dst).addr useSrc = p.addr useSrc ∨
      Mistaken p.ver (Twins object answer (p.moved src dst) useSrc) (p.addr useSrc) := by
  have hl := lowered object
  generalize pfLowerObject object = out at hl hx h
  cases hl
  case overflow => nomatch hx
  case rules cs _ hc he =>
    have ⟨c, hm, hmt⟩ := he.pfMatch_iff.mp h
    have hl := (hc c).mp hm
    have ⟨hce, he4, he6⟩ := (he.exact hx).right c hm
    obtain ⟨src, dst, hmem, hside⟩ := hmt.exists_moved d he4 he6
    refine ⟨src, dst, accepts_of_leads ho (hr src dst) hl hce hmem, fun useSrc => ?_⟩
    rw [← addr_eq_twins (p := p.moved src dst) ho hr hl hce hmem]
    exact hside useSrc

end

end Prefilter
