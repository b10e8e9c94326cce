import EbpfDivert.Primitives.JumpCode
import EbpfDivert.Wd.Text.Flatten
import EbpfDivert.Wd.Theorems.Execute

-- The compiled filter evaluates the expression it was made from.
namespace Wd.Text

open JumpCode (Closed Within run)

-- A test as the evaluator sees it, apart from its labels.
def TestExpr.insn (t : TestExpr) : Insn :=
  emitTest 0 ⟨t, 0, 0⟩

-- The answer to a test after it has been simplified.
def simplified (answer : TestExpr → Option Bool) (t : TestExpr) : Option Bool :=
  (constant (simplifyTest t)).or (answer (simplifyTest t))

-- How many tests of an expression are left after the simplification.
def Expr.size (e : Expr) : Nat :=
  e.tests.countP fun t => (constant (simplifyTest t)).isNone

def code (stack : List Stacked) : List (JumpCode.Entry TestExpr) :=
  stack.map fun s => ⟨s.test, target s.succ, target s.fail⟩

section Flatten

variable {e a b : Expr} {t : TestExpr} {stack stack' : List Stacked} {s f l n : Nat}
  {succ fail label : Option Nat}

@[simp]
theorem length_code : (code stack).length = stack.length :=
  List.length_map ..

theorem code_suffix (h : stack <:+ stack') : code stack <:+ code stack' :=
  h.map _

theorem not_verdict (h : n < filterMaxLen) : n ≠ resultAccept ∧ n ≠ resultReject := by
  simp only [filterMaxLen, resultAccept, resultReject] at h ⊢
  omega

theorem target_of_lt (h : n < filterMaxLen) : target n = .node n :=
  target_eq_node.mpr ⟨rfl, not_verdict h⟩

theorem target_ite (r : Bool) : target (if r then s else f) = if r then target s else target f := by
  cases r <;> rfl

theorem within_top {p : Stacked} : Within (code (p :: stack)) (.node stack.length) :=
  have hlen : (code (p :: stack)).length = stack.length + 1 := length_code
  Nat.lt_of_lt_of_eq (Nat.lt_succ_self stack.length) hlen.symm

-- The answer to the test on top decides which of its labels comes next.
theorem run_code_cons {answer : TestExpr → Option Bool} {p : Stacked} :
    run answer (code (p :: stack)) (.node stack.length) =
      (answer p.test).bind fun r => run answer (code stack) (target (if r then p.succ else p.fail)) := by
  have hlen : (code stack).length = stack.length := length_code
  simp only [target_ite]
  exact hlen ▸ JumpCode.run_top

-- Code for an expression that was put in front: from `l` it leads to `s` or to `f`.
structure Lays (e : Expr) (stack stack' : List Stacked) (s f l : Nat) : Prop where
  suffix : stack <:+ stack'
  closed : Closed (code stack')
  within : Within (code stack') (target l)
  le     : stack.length ≤ filterMaxLen → stack'.length ≤ filterMaxLen
  run_eq : ∀ answer, run answer (code stack') (target l) =
    (e.eval (simplified answer)).bind fun r => run answer (code stack) (target (if r then s else f))

theorem Lays.within_of (h : Lays e stack stack' s f l) (hn : Within (code stack) (target n)) :
    Within (code stack') (target n) :=
  hn.suffix (code_suffix h.suffix)

theorem Lays.run_of (h : Lays e stack stack' s f l) (hn : Within (code stack) (target n))
    (answer : TestExpr → Option Bool) :
    run answer (code stack') (target n) = run answer (code stack) (target n) :=
  JumpCode.run_suffix hn (code_suffix h.suffix)

theorem flattenExpr_none (h : succ.isNone ∨ fail.isNone) :
    flattenExpr e succ fail stack = some (none, stack) := by
  cases e
  case test => cases succ <;> cases fail <;> simp_all [flattenExpr]
  all_goals rw [flattenExpr, if_pos h]

-- A label comes out only where both labels that go in are there.
theorem flattenExpr_some (h : flattenExpr e succ fail stack = some (some l, stack')) :
    ∃ s f, succ = some s ∧ fail = some f := by
  cases succ
  case none => simp [flattenExpr_none] at h
  case some s =>
    cases fail
    case none   => simp [flattenExpr_none] at h
    case some f => exact ⟨s, f, rfl, rfl⟩

theorem flattenExpr_and : flattenExpr (.and a b) (some s) (some f) stack =
    (flattenExpr b (some s) (some f) stack).bind fun r => flattenExpr a r.1 (some f) r.2 := by
  simp [flattenExpr]

theorem flattenExpr_or : flattenExpr (.or a b) (some s) (some f) stack =
    (flattenExpr b (some s) (some f) stack).bind fun r => flattenExpr a (some s) r.1 r.2 := by
  simp [flattenExpr]

theorem flattenExpr_question : flattenExpr (.question e a b) (some s) (some f) stack =
    (flattenExpr b (some s) (some f) stack).bind fun r =>
    (flattenExpr a (some s) (some f) r.2).bind fun r' => flattenExpr e r'.1 r.1 r'.2 := by
  simp [flattenExpr]

theorem lays_test (hc : Closed (code stack)) (hs : Within (code stack) (target s))
    (hf : Within (code stack) (target f))
    (h : flattenExpr (.test t) (some s) (some f) stack = some (some l, stack')) :
    Lays (.test t) stack stack' s f l := by
  simp only [flattenExpr] at h
  split at h
  case h_1 result hr =>
    cases h
    refine ⟨List.suffix_refl _, hc, by cases result <;> assumption, id, fun answer => ?_⟩
    rw [Expr.eval, simplified, hr]
    rfl
  case h_2 hr =>
    split at h
    case isTrue => cases h
    case isFalse hl =>
      cases h
      have ht := target_of_lt (Nat.lt_of_not_le hl)
      refine ⟨List.suffix_cons .., ⟨hs, hf, hc⟩, ht ▸ within_top, fun _ => Nat.lt_of_not_le hl, ?_⟩
      intro answer
      rw [ht, run_code_cons, Expr.eval, simplified, hr, Option.none_or]

-- One case per kind of expression: what was laid out first is where the rest leads to.
theorem lays_of_flattenExpr (hc : Closed (code stack)) (hs : Within (code stack) (target s))
    (hf : Within (code stack) (target f))
    (h : flattenExpr e (some s) (some f) stack = some (some l, stack')) :
    Lays e stack stack' s f l := by
  induction e generalizing stack stack' s f l
  case null => cases h
  case test t => exact lays_test hc hs hf h
  case and a b iha ihb =>
    rw [flattenExpr_and, Option.bind_eq_some_iff] at h
    obtain ⟨⟨m, st⟩, hb, ha⟩ := h
    obtain ⟨m, -, rfl, -⟩ := flattenExpr_some ha
    have lb := ihb hc hs hf hb
    have la := iha lb.closed lb.within (lb.within_of hf) ha
    refine ⟨lb.suffix.trans la.suffix, la.closed, la.within, la.le ∘ lb.le, fun answer => ?_⟩
    rw [la.run_eq, Expr.eval, Option.bind_assoc]
    congr 1
    funext r
    cases r
    case true  => exact lb.run_eq answer
    case false => exact lb.run_of hf answer
  case or a b iha ihb =>
    rw [flattenExpr_or, Option.bind_eq_some_iff] at h
    obtain ⟨⟨m, st⟩, hb, ha⟩ := h
    obtain ⟨-, m, -, rfl⟩ := flattenExpr_some ha
    have lb := ihb hc hs hf hb
    have la := iha lb.closed (lb.within_of hs) lb.within ha
    refine ⟨lb.suffix.trans la.suffix, la.closed, la.within, la.le ∘ lb.le, fun answer => ?_⟩
    rw [la.run_eq, Expr.eval, Option.bind_assoc]
    congr 1
    funext r
    cases r
    case true  => exact lb.run_of hs answer
    case false => exact lb.run_eq answer
  case question c th el ihc iht ihe =>
    simp only [flattenExpr_question, Option.bind_eq_some_iff] at h
    obtain ⟨⟨m₁, st₁⟩, he, ⟨m₂, st₂⟩, ht, hq⟩ := h
    obtain ⟨m₂, m₁, rfl, rfl⟩ := flattenExpr_some hq
    have le := ihe hc hs hf he
    have lt := iht le.closed (le.within_of hs) (le.within_of hf) ht
    have lq := ihc lt.closed lt.within (lt.within_of le.within) hq
    refine ⟨(le.suffix.trans lt.suffix).trans lq.suffix, lq.closed, lq.within, lq.le ∘ lt.le ∘ le.le,
      fun answer => ?_⟩
    rw [lq.run_eq, Expr.eval, Option.bind_assoc]
    congr 1
    funext r
    cases r
    case true =>
      refine (lt.run_eq answer).trans ?_
      congr 1
      funext r
      cases r
      case true  => exact le.run_of hs answer
      case false => exact le.run_of hf answer
    case false => exact (lt.run_of le.within answer).trans (le.run_eq answer)

@[simp]
theorem size_and : (Expr.and a b).size = a.size + b.size :=
  List.countP_append

@[simp]
theorem size_or : (Expr.or a b).size = a.size + b.size :=
  List.countP_append

@[simp]
theorem size_question : (Expr.question e a b).size = e.size + a.size + b.size := by
  simp only [Expr.size, Expr.tests, List.countP_append]

-- The outcome of laying out `n` tests: they have a label if there is room for all of them.
structure Fits (n : Nat) (stack : List Stacked) (r : Option Nat × List Stacked) : Prop where
  le   : r.2.length ≤ filterMaxLen
  room : stack.length + n ≤ filterMaxLen → r.1.isSome ∧ r.2.length = stack.length + n
  full : filterMaxLen < stack.length + n → r.1 = none

theorem Fits.isSome_iff {r : Option Nat × List Stacked} (h : Fits n stack r) :
    r.1.isSome ↔ stack.length + n ≤ filterMaxLen := by
  refine ⟨fun hs => ?_, fun hl => (h.room hl).1⟩
  by_contra hl
  rw [h.full (Nat.lt_of_not_le hl)] at hs
  cases hs

-- The rest is laid out behind `r`, with the label of `r` and others that are there.
theorem Fits.trans {r : Option Nat × List Stacked} (h : Fits n stack r)
    (ih : ∀ {s f : Nat} {stack : List Stacked}, stack.length ≤ filterMaxLen →
      ∃ r, flattenExpr a (some s) (some f) stack = some r ∧ Fits a.size stack r)
    (hn : r.1 = none → succ.isNone ∨ fail.isNone) (hs : r.1.isSome → succ.isSome ∧ fail.isSome) :
    ∃ r', flattenExpr a succ fail r.2 = some r' ∧ Fits (a.size + n) stack r' := by
  by_cases hl : stack.length + n ≤ filterMaxLen
  case neg =>
    have he := h.full (Nat.lt_of_not_le hl)
    exact ⟨_, flattenExpr_none (hn he), h.le, fun hr => by omega, fun _ => rfl⟩
  case pos =>
    obtain ⟨hi, hr⟩ := h.room hl
    obtain ⟨⟨s, rfl⟩, f, rfl⟩ := (hs hi).imp Option.isSome_iff_exists.mp Option.isSome_iff_exists.mp
    obtain ⟨r', hf, ha⟩ := ih (s := s) (f := f) h.le
    have hsum : r.2.length + a.size = stack.length + (a.size + n) := by omega
    exact ⟨r', hf, ha.le, hsum ▸ ha.room, hsum ▸ ha.full⟩

theorem fits_test (hl : stack.length ≤ filterMaxLen) :
    ∃ r, flattenExpr (.test t) (some s) (some f) stack = some r ∧ Fits (Expr.test t).size stack r := by
  simp only [flattenExpr, Expr.size, Expr.tests, List.countP_singleton]
  cases constant (simplifyTest t)
  case some result => exact ⟨_, rfl, hl, fun _ => ⟨rfl, rfl⟩, fun h => absurd h (Nat.not_lt.mpr hl)⟩
  case none =>
    by_cases hn : filterMaxLen ≤ stack.length
    case pos => exact ⟨_, if_pos hn, hl, fun h => absurd h (Nat.not_le.mpr (Nat.lt_succ_of_le hn)), fun _ => rfl⟩
    case neg =>
      refine ⟨_, if_neg hn, Nat.lt_of_not_le hn, fun _ => ⟨rfl, rfl⟩, fun h => ?_⟩
      exact absurd h (Nat.not_lt.mpr (Nat.lt_of_not_le hn))

-- Where no part of an expression is missing, it fails only for want of room.
theorem exists_flattenExpr (hw : e.Whole) (hl : stack.length ≤ filterMaxLen) :
    ∃ r, flattenExpr e (some s) (some f) stack = some r ∧ Fits e.size stack r := by
  induction e generalizing stack s f
  case null => cases hw
  case test => exact fits_test hl
  case and a b iha ihb =>
    obtain ⟨r, hb, hr⟩ := ihb (s := s) (f := f) hw.2 hl
    rw [flattenExpr_and, hb, size_and]
    exact hr.trans (iha hw.1) (fun h => .inl (by rw [h]; rfl)) fun h => ⟨h, rfl⟩
  case or a b iha ihb =>
    obtain ⟨r, hb, hr⟩ := ihb (s := s) (f := f) hw.2 hl
    rw [flattenExpr_or, hb, size_or]
    exact hr.trans (iha hw.1) (fun h => .inr (by rw [h]; rfl)) fun h => ⟨rfl, h⟩
  case question c th el ihc iht ihe =>
    obtain ⟨r, he, hr⟩ := ihe (s := s) (f := f) hw.2.2 hl
    obtain ⟨r', ht, hr'⟩ := iht (s := s) (f := f) hw.2.1 hr.le
    rw [flattenExpr_question, he, Option.bind_some, ht, Option.bind_some, size_question]
    by_cases hn : r.1.isSome
    case pos =>
      have hlen := (hr.room (hr.isSome_iff.mp hn)).2
      have hnone : r'.1 = none → r'.1.isNone ∨ r.1.isNone := fun h => .inl (by rw [h]; rfl)
      obtain ⟨r'', hc, hr''⟩ := hr'.trans (ihc hw.1) hnone fun h => ⟨h, hn⟩
      have hsum : r.2.length + (c.size + th.size) = stack.length + (c.size + th.size + el.size) := by
        omega
      exact ⟨r'', hc, hr''.le, hsum ▸ hr''.room, hsum ▸ hr''.full⟩
    case neg =>
      have hfull := fun h => hn (hr.isSome_iff.mpr h)
      refine ⟨_, flattenExpr_none (.inr (by simpa using hn)), hr'.le, fun h => ?_, fun _ => rfl⟩
      exact absurd (by omega) hfull

theorem exists_label (hw : e.Whole) (hl : stack.length + e.size ≤ filterMaxLen) :
    ∃ l st, flattenExpr e (some s) (some f) stack = some (some l, st) ∧
      st.length = stack.length + e.size := by
  obtain ⟨⟨label, st⟩, hf, hr⟩ := exists_flattenExpr (s := s) (f := f) hw (by omega : stack.length ≤ _)
  obtain ⟨hs, hlen⟩ := hr.room hl
  obtain ⟨l, rfl⟩ := Option.isSome_iff_exists.mp hs
  exact ⟨l, st, hf, hlen⟩

-- A part that is missing is dereferenced, if there is room for the rest.
theorem flattenExpr_of_not_whole (hw : ¬e.Whole) (hl : stack.length + e.size ≤ filterMaxLen) :
    flattenExpr e (some s) (some f) stack = none := by
  induction e generalizing stack s f
  case null => rfl
  case test => exact absurd trivial hw
  case and a b iha ihb =>
    rw [size_and] at hl
    rw [flattenExpr_and]
    by_cases hb : b.Whole
    case neg => rw [ihb hb (by omega), Option.bind_none]
    case pos =>
      obtain ⟨m, st, hf, hlen⟩ := exists_label (s := s) (f := f) hb (show stack.length + _ ≤ _ by omega)
      rw [hf]
      exact iha (fun ha => hw ⟨ha, hb⟩) (by simp only; omega)
  case or a b iha ihb =>
    rw [size_or] at hl
    rw [flattenExpr_or]
    by_cases hb : b.Whole
    case neg => rw [ihb hb (by omega), Option.bind_none]
    case pos =>
      obtain ⟨m, st, hf, hlen⟩ := exists_label (s := s) (f := f) hb (show stack.length + _ ≤ _ by omega)
      rw [hf]
      exact iha (fun ha => hw ⟨ha, hb⟩) (by simp only; omega)
  case question c th el ihc iht ihe =>
    rw [size_question] at hl
    rw [flattenExpr_question]
    by_cases he : el.Whole
    case neg => rw [ihe he (by omega), Option.bind_none]
    case pos =>
      obtain ⟨m₁, st₁, hf₁, hlen₁⟩ := exists_label (s := s) (f := f) he (show stack.length + _ ≤ _ by omega)
      rw [hf₁, Option.bind_some]
      by_cases ht : th.Whole
      case neg => rw [iht ht (by simp only; omega), Option.bind_none]
      case pos =>
        obtain ⟨m₂, st₂, hf₂, hlen₂⟩ := exists_label (s := s) (f := f) ht (show st₁.length + _ ≤ _ by omega)
        rw [hf₂]
        exact ihc (fun hc => hw ⟨hc, ht, he⟩) (by simp only; omega)

end Flatten

section Emit

variable {stack rest : List Stacked} {s : Stacked} {x : Input} {k l m ttl : Nat}

theorem answer_emitTest {offset : Nat} : answer x (emitTest offset s) = answer x s.test.insn :=
  rfl

theorem next_emitTest {offset : Nat} (b : Bool) :
    (emitTest offset s).next b = emitLabel offset (if b then s.succ else s.fail) := by
  cases b <;> rfl

-- The whole stack, emitted from its top.
def object (stack : List Stacked) : List Insn :=
  stack.map (emitTest (stack.length - 1))

theorem within_target (h : Within (code rest) (target l)) :
    l = resultAccept ∨ l = resultReject ∨ (target l = .node l ∧ l < rest.length) := by
  by_cases ha : l = resultAccept
  case pos => exact .inl ha
  case neg =>
    by_cases hr : l = resultReject
    case pos => exact .inr (.inl hr)
    case neg =>
      have ht : target l = .node l := target_eq_node.mpr ⟨rfl, ha, hr⟩
      rw [ht] at h
      exact .inr (.inr ⟨ht, length_code ▸ h⟩)

theorem emitLabel_of_lt {offset : Nat} (h : l < filterMaxLen) : emitLabel offset l = offset - l :=
  if_neg (not_or.mpr (not_verdict h))

theorem getD_object (hs : s :: rest <:+ stack) :
    (object stack).getD (stack.length - 1 - rest.length) .zero = emitTest (stack.length - 1) s := by
  obtain ⟨pre, rfl⟩ := hs
  have hpre : (pre ++ s :: rest).length - 1 - rest.length = pre.length := by
    simp only [List.length_append, List.length_cons]
    omega
  rw [object, List.getD_eq_getElem?_getD, List.getElem?_map, hpre,
    List.getElem?_append_right (Nat.le_refl _), Nat.sub_self]
  rfl

-- The test with `m` tests below it.
theorem exists_suffix (h : m < rest.length) : ∃ s low, s :: low <:+ rest ∧ low.length = m := by
  have hd : rest.length - 1 - m < rest.length := by omega
  refine ⟨_, _, List.drop_eq_getElem_cons hd ▸ List.drop_suffix .., ?_⟩
  rw [List.length_drop]
  omega

-- From the test with `rest` below it, the evaluator follows the labels of the stack.
theorem executeFilterFrom_object (hc : Closed (code stack)) (hl : stack.length ≤ filterMaxLen)
    (hs : s :: rest <:+ stack) (ht : rest.length < ttl) :
    executeFilterFrom (object stack) x ttl (stack.length - 1 - rest.length) =
      run (fun t => answer x t.insn) (code (s :: rest)) (.node rest.length) := by
  induction hk : rest.length using Nat.strong_induction_on generalizing s rest ttl
  case _ k ih =>
    obtain ⟨ttl, rfl⟩ : ∃ n, ttl = n + 1 := ⟨ttl - 1, by omega⟩
    have hlen := hs.length_le
    rw [List.length_cons] at hlen
    rw [← hk, executeFilterFrom, getD_object hs, answer_emitTest, run_code_cons]
    congr 1
    funext b
    have hw : Within (code rest) (target (if b then s.succ else s.fail)) := by
      rw [target_ite]
      exact (hc.suffix (code_suffix hs)).next b
    simp only [next_emitTest]
    obtain ha | hr | ⟨ht', hm⟩ := within_target hw
    case inl => rw [ha]; simp [emitLabel, target]
    case inr.inl => rw [hr]; simp [emitLabel, target, resultAccept, resultReject]
    case inr.inr =>
      generalize (if b then s.succ else s.fail) = m at ht' hm
      obtain ⟨s', low, hlow, rfl⟩ := exists_suffix hm
      have hstep := ih low.length (by omega) (hlow.trans ((List.suffix_cons ..).trans hs))
        (by omega : low.length < ttl) rfl
      obtain ⟨ha, hr⟩ := not_verdict (show stack.length - 1 - low.length < filterMaxLen by omega)
      rw [emitLabel_of_lt (by omega), if_neg ha, if_neg hr, hstep, ht']
      exact (JumpCode.run_suffix within_top (code_suffix hlow)).symm

theorem proper_object (hc : Closed (code stack)) (hl : stack.length ≤ filterMaxLen)
    (h₀ : 0 < stack.length) : Proper (object stack) where
  nonempty := by rwa [object, List.length_map]
  le_max   := by rwa [object, List.length_map]
  forward {i insn b} hi := by
    rw [object, List.getElem?_map, Option.map_eq_some_iff] at hi
    obtain ⟨s, hs, rfl⟩ := hi
    obtain ⟨hlt, rfl⟩ := List.getElem?_eq_some_iff.mp hs
    have hsuf : stack[i] :: stack.drop (i + 1) <:+ stack :=
      List.drop_eq_getElem_cons hlt ▸ List.drop_suffix ..
    have hw : Within (code (stack.drop (i + 1))) (target (if b then stack[i].succ else stack[i].fail)) := by
      rw [target_ite]
      exact (hc.suffix (code_suffix hsuf)).next b
    rw [next_emitTest]
    obtain ha | hr | ⟨-, hm⟩ := within_target hw
    case inl => exact .inl (by simp [ha, emitLabel])
    case inr.inl => exact .inr (.inl (by simp [hr, emitLabel]))
    case inr.inr =>
      rw [List.length_drop] at hm
      rw [emitLabel_of_lt (by omega), object, List.length_map]
      exact .inr (.inr (by omega))

theorem emitFilter_of_suffix (hs : s :: rest <:+ stack) (hl : rest.length < filterMaxLen) :
    emitFilter stack rest.length = object (s :: rest) := by
  rw [emitFilter, if_neg (not_or.mpr (not_verdict hl)), ← List.length_cons (a := s),
    ← List.suffix_iff_eq_drop.mp hs]
  rfl

theorem executeFilter_verdict (h : l = resultAccept ∨ l = resultReject) :
    Proper (emitFilter stack l) ∧ ∀ x,
    executeFilter (emitFilter stack l) x = run (fun t => answer x t.insn) (code stack) (target l) := by
  have hn : Insn.next ⟨.zero, .eq, l, l, false, .zero⟩ true = l := rfl
  rw [emitFilter, if_pos h]
  refine ⟨⟨Nat.one_pos, by simp [filterMaxLen], fun {i insn b} hi => ?_⟩, fun x => ?_⟩
  case refine_1 =>
    cases List.mem_singleton.mp (List.mem_of_getElem? hi)
    cases b <;> exact h.imp_right .inl
  case refine_2 =>
    have ha : answer x ⟨.zero, .eq, l, l, false, .zero⟩ = some true := by
      simp only [answer, validateField, readField, if_true]
      rfl
    simp only [executeFilter, executeFilterFrom, List.getD_cons_zero, ha, Option.bind_eq_bind, Option.bind_some, hn]
    obtain rfl | rfl := h
    case inl => simp [target]
    case inr => simp [target, resultAccept, resultReject]

-- The object is one that the evaluator can run, and it decides what the stack decides from the label.
theorem executeFilter_emitFilter (hc : Closed (code stack)) (hl : stack.length ≤ filterMaxLen)
    (hw : Within (code stack) (target l)) : Proper (emitFilter stack l) ∧ ∀ x,
    executeFilter (emitFilter stack l) x = run (fun t => answer x t.insn) (code stack) (target l) := by
  obtain ha | hr | ⟨ht, hm⟩ := within_target hw
  case inl => exact executeFilter_verdict (.inl ha)
  case inr.inl => exact executeFilter_verdict (.inr hr)
  case inr.inr =>
    obtain ⟨s, rest, hs, rfl⟩ := exists_suffix hm
    have hclosed := hc.suffix (code_suffix hs)
    have hlen : (s :: rest).length ≤ filterMaxLen := hs.length_le.trans hl
    rw [emitFilter_of_suffix hs hlen, ht]
    refine ⟨proper_object hclosed hlen (Nat.succ_pos _), fun x => ?_⟩
    have hrun := executeFilterFrom_object (x := x) hclosed hlen (List.suffix_refl _)
      (Nat.lt_succ_of_lt hlen)
    rw [List.length_cons, Nat.add_sub_cancel, Nat.sub_self] at hrun
    exact hrun.trans (JumpCode.run_suffix within_top (code_suffix hs)).symm

end Emit

-- The compiled filter can be run, and it evaluates the simplified tests of the expression as the
-- expression says.
theorem executeFilter_flattenExpr {e : Expr} {l : Nat} {stack : List Stacked}
    (h : flattenExpr e (some resultAccept) (some resultReject) [] = some (some l, stack)) :
    Proper (emitFilter stack l) ∧ ∀ x, executeFilter (emitFilter stack l) x =
      e.eval (simplified fun t => answer x t.insn) := by
  have hl := lays_of_flattenExpr (show Closed (code []) from trivial) (by simp [target, Within])
    (by simp [target, Within, resultAccept, resultReject]) h
  obtain ⟨hp, hx⟩ := executeFilter_emitFilter hl.closed (hl.le (Nat.zero_le _)) hl.within
  refine ⟨hp, fun x => (hx x).trans ?_⟩
  rw [hl.run_eq]
  cases e.eval (simplified fun t => answer x t.insn)
  case none => rfl
  case some r => cases r <;> simp [target, resultAccept, resultReject]

end Wd.Text
