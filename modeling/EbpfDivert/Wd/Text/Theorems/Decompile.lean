import EbpfDivert.Wd.Text.Decompile
import EbpfDivert.Wd.Text.Theorems.Compile
import Mathlib.Data.List.Forall2
import Mathlib.Data.List.Perm.Basic

-- The expression that a compiled filter is turned back into means what the filter means.
namespace Wd.Text

open DecisionGraph (Target)
open Flowchart (Yields Live Absorbs Contracts)

section Nodes

variable {exprs exprs' : Exprs} {i j label : Nat} {n : Node} {o : Option Node}

theorem isVerdict_eq_false : isVerdict label = false ↔ label ≠ resultAccept ∧ label ≠ resultReject := by
  simp [isVerdict]

theorem target_of_not_verdict (h : isVerdict label = false) : target label = .node label :=
  target_eq_node.mpr ⟨rfl, isVerdict_eq_false.mp h⟩

theorem lt_of_node (h : exprs.node i = some n) : i < exprs.length := by
  by_contra hi
  simp [Exprs.node, List.getElem?_eq_none (Nat.le_of_not_lt hi)] at h

theorem node_set_self (h : i < exprs.length) : Exprs.node (exprs.set i o) i = o := by
  simp [Exprs.node, List.getElem?_set_self h]

theorem node_set_ne (h : i ≠ j) : Exprs.node (exprs.set i o) j = exprs.node j := by
  simp [Exprs.node, List.getElem?_set_ne h]

-- The labels that a node leads to.
def own : Option Node → List Nat
  | none   => []
  | some n => [n.succ, n.fail]

def labels (exprs : Exprs) : List Nat :=
  exprs.flatMap own

theorem labels_set (h : i < exprs.length) :
    (labels (exprs.set i o) ++ own (exprs.node i)).Perm (labels exprs ++ own o) := by
  induction exprs generalizing i
  case nil => cases h
  case cons e exprs ih =>
    cases i
    case zero =>
      simp only [labels, List.set_cons_zero, List.flatMap_cons, Exprs.node, List.getElem?_cons_zero,
        Option.join_some, List.append_assoc]
      exact (List.perm_append_comm_assoc ..).trans
        ((List.perm_append_comm.append_left _).trans (List.perm_append_comm_assoc ..))
    case succ i =>
      simp only [labels, List.set_cons_succ, List.flatMap_cons, Exprs.node, List.getElem?_cons_succ,
        List.append_assoc]
      exact (ih (Nat.lt_of_succ_lt_succ h)).append_left _

theorem getElem?_of_node (h : exprs.node i = some n) : exprs[i]? = some (some n) :=
  Option.join_eq_some_iff.mp h

theorem mem_labels (h : exprs.node i = some n) (hl : label ∈ [n.succ, n.fail]) : label ∈ labels exprs :=
  List.mem_flatMap.mpr ⟨some n, List.mem_of_getElem? (getElem?_of_node h), hl⟩

end Nodes

section Counting

variable {exprs exprs' exprs'' : Exprs} {refs : Nat → Nat} {i label : Nat} {dropped : List Nat} {n : Node}

-- The nodes know how many labels lead to them, and only those are forgotten that none leads to.
structure Counted (exprs : Exprs) (refs : Nat → Nat) : Prop where
  small : exprs.length ≤ filterMaxLen
  count : ∀ {i n}, exprs.node i = some n → n.count = .ofNat 8 (refs i)
  le    : ∀ i, refs i ≤ 256
  live  : ∀ {i}, 0 < refs i → isVerdict i = false → (exprs.node i).isSome

-- Only counts have changed and nodes have been forgotten.
structure Fades (exprs exprs' : Exprs) : Prop where
  length : exprs'.length = exprs.length
  node   : ∀ {i n}, exprs'.node i = some n → ∃ count, exprs.node i = some { n with count := count }

theorem Fades.refl : Fades exprs exprs :=
  ⟨rfl, fun {_ n} h => ⟨n.count, h⟩⟩

theorem Fades.trans (h₁ : Fades exprs exprs') (h₂ : Fades exprs' exprs'') : Fades exprs exprs'' where
  length := h₂.length.trans h₁.length
  node h := by
    obtain ⟨_, h⟩ := h₂.node h
    obtain ⟨count, h⟩ := h₁.node h
    exact ⟨count, h⟩

theorem Fades.node_eq_none (h : Fades exprs exprs') (hn : exprs.node i = none) : exprs'.node i = none := by
  cases hi : exprs'.node i
  case none => rfl
  case some n =>
    obtain ⟨count, h⟩ := h.node hi
    rw [hn] at h
    cases h

theorem Counted.not_verdict (h : Counted exprs refs) (hn : exprs.node i = some n) : isVerdict i = false :=
  isVerdict_eq_false.mpr (Text.not_verdict (Nat.lt_of_lt_of_le (lt_of_node hn) h.small))

-- Eight bits are enough to see whether a label is the last one.
theorem ofNat_pred {k : Nat} (h₀ : 0 < k) (h : k ≤ 256) :
    BitVec.ofNat 8 k - 1#8 = BitVec.ofNat 8 (k - 1) ∧ (BitVec.ofNat 8 k - 1#8 = 0#8 ↔ k = 1) := by
  have he : BitVec.ofNat 8 k - 1#8 = BitVec.ofNat 8 (k - 1) := by
    refine BitVec.eq_of_toNat_eq ?_
    simp only [BitVec.toNat_sub, BitVec.toNat_ofNat]
    omega
  refine ⟨he, ?_⟩
  rw [he, BitVec.toNat_eq, BitVec.toNat_ofNat, BitVec.toNat_ofNat]
  omega

theorem eq_one_of_ofNat {k : Nat} (h : k ≤ 256) (h₁ : BitVec.ofNat 8 k = 1#8) : k = 1 := by
  rw [BitVec.toNat_eq, BitVec.toNat_ofNat, BitVec.toNat_ofNat] at h₁
  omega

-- What a label that is dropped does.
structure Drops (exprs exprs' : Exprs) (refs : Nat → Nat) (dropped : List Nat) : Prop where
  counted : Counted exprs' fun i => refs i - dropped.count i
  fades   : Fades exprs exprs'
  dead    : ∀ {i}, i ∈ dropped → isVerdict i = false → refs i = dropped.count i → exprs'.node i = none

theorem derefExpr_drops (h : Counted exprs refs) (hl : 0 < refs label) :
    ∃ exprs', derefExpr exprs label = some exprs' ∧ Drops exprs exprs' refs [label] := by
  have hc (i : Nat) : [label].count i = if i = label then 1 else 0 := by
    by_cases hi : i = label
    case pos => simp [hi]
    case neg => rw [if_neg hi, List.count_eq_zero_of_not_mem (by simpa using hi)]
  by_cases hv : isVerdict label
  case pos =>
    refine ⟨exprs, if_pos hv, ⟨h.small, fun {i n} hn => ?_, fun i => ?_, fun {i} hi hv => ?_⟩, .refl, ?_⟩
    · have hne : i ≠ label := by
        rintro rfl
        simp [h.not_verdict hn] at hv
      simpa [hc, hne] using h.count hn
    · exact (Nat.sub_le ..).trans (h.le i)
    · exact h.live (Nat.lt_of_lt_of_le hi (Nat.sub_le ..)) hv
    · intro i hi hv'
      simp [List.mem_singleton.mp hi, hv] at hv'
  case neg =>
    have hv : isVerdict label = false := by simpa using hv
    obtain ⟨n, hn⟩ := Option.isSome_iff_exists.mp (h.live hl hv)
    have hlt := lt_of_node hn
    obtain ⟨hp, h0⟩ : n.count - 1 = .ofNat 8 (refs label - 1) ∧ (n.count - 1 = 0 ↔ refs label = 1) :=
      h.count hn ▸ ofNat_pred hl (h.le label)
    let o := if n.count - 1 = 0 then none else some { n with count := n.count - 1 }
    have hself : Exprs.node (exprs.set label o) label = o := node_set_self hlt
    refine ⟨exprs.set label o, by rw [derefExpr, if_neg (by simp [hv]), hn]; rfl,
      ⟨by simpa using h.small, fun {i n'} hn' => ?_, fun i => ?_, fun {i} hi hv => ?_⟩, ⟨by simp, ?_⟩, ?_⟩
    · by_cases hi : i = label
      case neg => simpa [hc, hi] using h.count ((node_set_ne (Ne.symm hi)).symm.trans hn')
      case pos =>
        subst hi
        have ho := hself.symm.trans hn'
        simp only [o, Option.ite_none_left_eq_some, Option.some.injEq] at ho
        rw [← ho.2, hc, if_pos rfl]
        exact hp
    · exact (Nat.sub_le ..).trans (h.le i)
    · by_cases hi' : i = label
      case neg => rw [node_set_ne (Ne.symm hi')]; exact h.live (by simpa [hc, hi'] using hi) hv
      case pos =>
        subst hi'
        rw [hc, if_pos rfl] at hi
        rw [hself]
        simp only [o, h0, if_neg (show ¬refs i = 1 by omega), Option.isSome_some]
    · intro i n' hn'
      by_cases hi : i = label
      case neg => exact ⟨n'.count, (node_set_ne (Ne.symm hi)).symm.trans hn'⟩
      case pos =>
        subst hi
        have ho := hself.symm.trans hn'
        simp only [o, Option.ite_none_left_eq_some, Option.some.injEq] at ho
        exact ⟨n.count, by rw [← ho.2, hn]⟩
    · intro i hi _ hr
      obtain rfl := List.mem_singleton.mp hi
      rw [hself]
      rw [hc, if_pos rfl] at hr
      exact if_pos (h0.mpr hr)

theorem foldlM_derefExpr_drops (h : Counted exprs refs) (hl : ∀ i, dropped.count i ≤ refs i) :
    ∃ exprs', dropped.foldlM derefExpr exprs = some exprs' ∧ Drops exprs exprs' refs dropped := by
  induction dropped generalizing exprs refs
  case nil => exact ⟨exprs, rfl, by simpa using h, .refl, by simp⟩
  case cons label dropped ih =>
    have hcons (i : Nat) : (label :: dropped).count i = [label].count i + dropped.count i := by
      rw [← List.singleton_append, List.count_append]
    have hlabel : 0 < refs label := by
      have := hl label
      simp at this
      omega
    obtain ⟨exprs₁, he₁, hd₁⟩ := derefExpr_drops h hlabel
    obtain ⟨exprs₂, he₂, hd₂⟩ := ih hd₁.counted fun i => by have := hl i; rw [hcons] at this; omega
    refine ⟨exprs₂, by simp [List.foldlM, he₁, he₂], ?_, hd₁.fades.trans hd₂.fades, fun {i} hi hv hr => ?_⟩
    · have hs : (fun i => refs i - (label :: dropped).count i) =
          fun i => refs i - [label].count i - dropped.count i := by
        funext i
        rw [hcons]
        omega
      exact hs ▸ hd₂.counted
    · rw [hcons] at hr
      by_cases hm : i ∈ dropped
      case pos => exact hd₂.dead hm hv (by rw [hr]; omega)
      case neg =>
        have hi : i ∈ [label] := by simpa [hm] using hi
        rw [List.count_eq_zero_of_not_mem hm] at hr
        exact hd₂.fades.node_eq_none (hd₁.dead hi hv hr)

end Counting

section Coalesce

variable {exprs exprs' : Exprs} {refs : Nat → Nat} {i j label fuel : Nat} {taken : List Nat} {expr next : Node}
  {m : Merge} {g : Bool → Formula TestExpr}

-- The nodes at some places are forgotten.
def kill (exprs : Exprs) : List Nat → Exprs
  | []         => exprs
  | i :: taken => kill (exprs.set i none) taken

theorem length_kill : (kill exprs taken).length = exprs.length := by
  induction taken generalizing exprs
  case nil => rfl
  case cons i taken ih => exact ih.trans List.length_set

theorem node_kill (h : i ∉ taken) : (kill exprs taken).node i = exprs.node i := by
  induction taken generalizing exprs
  case nil => rfl
  case cons j taken ih =>
    rw [List.mem_cons, not_or] at h
    exact (ih h.right).trans (node_set_ne (Ne.symm h.left))

theorem labels_kill (hd : taken.Nodup) (hl : ∀ i ∈ taken, i < exprs.length) :
    (labels (kill exprs taken) ++ taken.flatMap fun i => own (exprs.node i)).Perm (labels exprs) := by
  induction taken generalizing exprs
  case nil => simp [kill]
  case cons i taken ih =>
    obtain ⟨hi, hd⟩ := List.nodup_cons.mp hd
    have hl' : ∀ j ∈ taken, j < (exprs.set i none).length := fun j hj => by
      simpa using hl j (List.mem_cons_of_mem _ hj)
    have hs := ih hd hl'
    have hown : (taken.flatMap fun j => own (Exprs.node (exprs.set i none) j)) =
        taken.flatMap fun j => own (exprs.node j) :=
      List.flatMap_congr fun j hj => by rw [node_set_ne (by rintro rfl; exact hi hj)]
    rw [hown] at hs
    have hset : (labels (exprs.set i none) ++ own (exprs.node i)).Perm (labels exprs ++ own none) :=
      labels_set (hl i List.mem_cons_self)
    rw [own, List.append_nil] at hset
    rw [kill, List.flatMap_cons]
    exact (List.perm_append_comm_assoc ..).trans ((hs.append_left _).trans (List.perm_append_comm.trans hset))

theorem Fades.labels_sublist (h : Fades exprs exprs') : (labels exprs').Sublist (labels exprs) := by
  induction exprs' generalizing exprs
  case nil => exact List.nil_sublist _
  case cons e' exprs' ih =>
    obtain ⟨e, exprs, rfl⟩ := List.exists_cons_of_length_eq_add_one h.length.symm
    have hn {i : Nat} {n : Node} (hn : Exprs.node exprs' i = some n) :
        ∃ count, Exprs.node exprs i = some { n with count := count } :=
      h.node (i := i + 1) hn
    refine List.Sublist.append ?_ (ih ⟨Nat.succ_injective h.length.symm |>.symm, hn⟩)
    cases e'
    case none => exact List.nil_sublist _
    case some n =>
      obtain ⟨count, he⟩ := h.node (i := 0) (n := n) rfl
      cases e
      case none => cases he
      case some n' =>
        cases he
        exact List.Sublist.refl _

-- All labels have been counted, and those that are not a verdict lead to later nodes.
structure Inv (exprs : Exprs) (refs : Nat → Nat) : Prop extends Counted exprs refs where
  labels  : ∀ i, (labels exprs).count i + (if i = 0 then 1 else 0) ≤ refs i
  forward : ∀ {i n label}, exprs.node i = some n → label ∈ [n.succ, n.fail] → isVerdict label = false →
    i < label

def Node.box (n : Node) : Flowchart.Box TestExpr where
  formula := n.expr
  next b  := target (if b then n.succ else n.fail)

def chart (exprs : Exprs) : Flowchart TestExpr :=
  fun i => (exprs.node i).map Node.box

theorem Inv.live_label (h : Inv exprs refs) (hn : exprs.node i = some expr)
    (hl : label ∈ [expr.succ, expr.fail]) (hv : isVerdict label = false) : (exprs.node label).isSome := by
  refine h.live ?_ hv
  have := h.labels label
  have := List.count_pos_iff.mpr (mem_labels hn hl)
  omega

theorem Inv.closed (h : Inv exprs refs) (hn : exprs.node i = some expr) (b : Bool) :
    Live (chart exprs) (expr.box.next b) := by
  have hm : (if b then expr.succ else expr.fail) ∈ [expr.succ, expr.fail] := by cases b <;> simp
  change Live (chart exprs) (target (if b then expr.succ else expr.fail))
  generalize (if b then expr.succ else expr.fail) = label at hm
  by_cases hv : isVerdict label
  case neg =>
    rw [target_of_not_verdict (by simpa using hv), Live, chart, Option.isSome_map]
    exact h.live_label hn hm (by simpa using hv)
  case pos =>
    rw [target]
    split_ifs with h₁ h₂
    · trivial
    · trivial
    · simp [isVerdict, h₁, h₂] at hv

-- A node takes up some of its successors.
structure Takes (exprs : Exprs) (expr : Node) (m : Merge) (taken : List Nat) (g : Bool → Formula TestExpr) :
    Prop where
  count   : m.expr.count = expr.count
  nodup   : taken.Nodup
  each    : ∀ {i}, i ∈ taken → i ∈ [expr.succ, expr.fail] ∧ isVerdict i = false ∧
    ∃ n, exprs.node i = some n ∧ n.count = 1
  dropped : taken ⊆ m.dropped
  two     : 2 ≤ m.dropped.length
  labels  : (own (some m.expr) ++ m.dropped).Perm
    (own (some expr) ++ taken.flatMap fun i => own (exprs.node i))
  absorbs : ∀ b, Absorbs (chart exprs) m.expr.box (expr.box.next b) (g b)
  eval    : ∀ answer, m.expr.expr.eval answer =
    (expr.expr.eval answer).bind fun b => (g b).eval answer
  asked   : ∀ {t}, t ∈ m.expr.expr.questions → t ∈ expr.expr.questions ∨ ∃ i n, exprs.node i = some n ∧
    t ∈ n.expr.questions

section Round

variable (h : Inv exprs refs) (hi : exprs.node i = some expr) (ht : Takes exprs expr m taken g)
include h hi ht

omit hi in
-- Nothing else leads to a node that is taken up.
theorem Takes.refs_eq_one (hj : j ∈ taken) : refs j = 1 := by
  obtain ⟨-, -, n, hn, h₁⟩ := ht.each hj
  exact eq_one_of_ofNat (h.le j) ((h.count hn).symm.trans h₁)

theorem Takes.lt (hj : j ∈ taken) : i < j :=
  h.forward hi (ht.each hj).1 (ht.each hj).2.1

-- All labels involved are those of later nodes.
theorem Takes.lt_label (hl : label ∈ own (some m.expr) ++ m.dropped) (hv : isVerdict label = false) :
    i < label := by
  rcases List.mem_append.mp (ht.labels.mem_iff.mp hl) with hl | hl
  case inl => exact h.forward hi hl hv
  case inr =>
    obtain ⟨j, hj, hl⟩ := List.mem_flatMap.mp hl
    obtain ⟨-, -, n, hn, -⟩ := ht.each hj
    rw [hn] at hl
    exact (ht.lt h hi hj).trans (h.forward hn hl hv)

theorem Takes.not_mem_dropped : i ∉ m.dropped := by
  intro hd
  exact Nat.lt_irrefl i (ht.lt_label h hi (List.mem_append_right _ hd) (h.not_verdict hi))

theorem Takes.labels_kill : (Text.labels (kill exprs (i :: taken)) ++ (own (some m.expr) ++ m.dropped)).Perm
    (Text.labels exprs) := by
  have hd : (i :: taken).Nodup := List.nodup_cons.mpr ⟨fun hm => Nat.lt_irrefl i (ht.lt h hi hm), ht.nodup⟩
  have hl : ∀ j ∈ i :: taken, j < exprs.length := by
    intro j hj
    rcases List.mem_cons.mp hj with rfl | hj
    case inl => exact lt_of_node hi
    case inr =>
      obtain ⟨-, -, n, hn, -⟩ := ht.each hj
      exact lt_of_node hn
  have hk := Text.labels_kill hd hl
  rw [List.flatMap_cons, hi] at hk
  exact (ht.labels.append_left _).trans hk

theorem Takes.count_dropped_le (j : Nat) : m.dropped.count j ≤ refs j := by
  have h₁ := (ht.labels_kill h hi).count_eq j
  have h₂ := h.labels j
  simp only [List.count_append] at h₁
  omega

-- What is left after the labels have been dropped is what was there without the nodes taken up.
theorem Takes.fades_kill (hd : Drops exprs exprs' refs m.dropped) :
    Fades (kill exprs (i :: taken)) (exprs'.set i none) where
  length := by rw [length_kill, List.length_set, hd.fades.length]
  node {j n} hn := by
    have hji : j ≠ i := by
      rintro rfl
      rw [node_set_self (hd.fades.length ▸ lt_of_node hi)] at hn
      cases hn
    rw [node_set_ne (Ne.symm hji)] at hn
    have hj : j ∉ taken := by
      intro hj
      have h₁ := ht.refs_eq_one h hj
      have h₂ := ht.count_dropped_le h hi j
      have h₃ := List.count_pos_iff.mpr (ht.dropped hj)
      rw [hd.dead (ht.dropped hj) (ht.each hj).2.1 (by omega)] at hn
      cases hn
    rw [node_kill (by simp [hji, hj])]
    exact hd.fades.node hn

theorem Takes.labels_subperm (hd : Drops exprs exprs' refs m.dropped) :
    (Text.labels (exprs'.set i (some m.expr)) ++ m.dropped).Subperm (Text.labels exprs) := by
  have hlt : i < (exprs'.set i none).length := by
    rw [List.length_set, hd.fades.length]
    exact lt_of_node hi
  have hset := labels_set (o := some m.expr) hlt
  rw [node_set_self (by simpa using hlt), own, List.append_nil, List.set_set] at hset
  have hs := (ht.fades_kill h hi hd).labels_sublist
  refine (hset.append_right _).subperm.trans ?_
  rw [List.append_assoc]
  exact (hs.append_right _).subperm.trans (ht.labels_kill h hi).subperm

theorem Takes.inv (hd : Drops exprs exprs' refs m.dropped) :
    Inv (exprs'.set i (some m.expr)) fun j => refs j - m.dropped.count j := by
  have hlt : i < exprs'.length := hd.fades.length ▸ lt_of_node hi
  have hself : Exprs.node (exprs'.set i (some m.expr)) i = some m.expr := node_set_self hlt
  have hne {j} (hj : j ≠ i) : Exprs.node (exprs'.set i (some m.expr)) j = exprs'.node j :=
    node_set_ne (Ne.symm hj)
  constructor
  case toCounted =>
    refine ⟨by simpa using hd.counted.small, fun {j n} hn => ?_, hd.counted.le, fun {j} hj hv => ?_⟩
    · by_cases hji : j = i
      case neg => exact hd.counted.count (hne hji ▸ hn)
      case pos =>
        subst hji
        cases hself.symm.trans hn
        rw [List.count_eq_zero_of_not_mem (ht.not_mem_dropped h hi), ht.count, Nat.sub_zero]
        exact h.count hi
    · by_cases hji : j = i
      case neg => exact hne hji ▸ hd.counted.live hj hv
      case pos => rw [hji, hself]; rfl
  case labels =>
    intro j
    have h₁ := (ht.labels_subperm h hi hd).count_le j
    have h₂ := h.labels j
    rw [List.count_append] at h₁
    omega
  case forward =>
    intro j n label hn hl hv
    by_cases hji : j = i
    case neg =>
      obtain ⟨count, hn⟩ := hd.fades.node (hne hji ▸ hn)
      exact h.forward hn hl hv
    case pos =>
      subst hji
      cases hself.symm.trans hn
      exact ht.lt_label h hi (List.mem_append_left _ hl) hv

omit h in
theorem Takes.asks (hd : Drops exprs exprs' refs m.dropped) {t : TestExpr} {n : Node}
    (hn : Exprs.node (exprs'.set i (some m.expr)) j = some n) (hq : t ∈ n.expr.questions) :
    ∃ k n, exprs.node k = some n ∧ t ∈ n.expr.questions := by
  by_cases hj : i = j
  case neg =>
    obtain ⟨count, hn⟩ := hd.fades.node ((node_set_ne hj).symm.trans hn)
    exact ⟨j, _, hn, hq⟩
  case pos =>
    subst hj
    cases (node_set_self (hd.fades.length ▸ lt_of_node hi)).symm.trans hn
    rcases ht.asked hq with hq | hq
    case inl => exact ⟨i, expr, hi, hq⟩
    case inr => exact hq

theorem Takes.keeps (hd : Drops exprs exprs' refs m.dropped) :
    Flowchart.Keeps (chart exprs) (chart (exprs'.set i (some m.expr))) := by
  have hlt : i < exprs'.length := hd.fades.length ▸ lt_of_node hi
  suffices hc : ∀ answer, Contracts answer (chart exprs) (chart (exprs'.set i (some m.expr))) i expr.box m.expr.box g
    from Flowchart.keeps_of_contracts hc
  intro answer
  constructor
  case before => rw [chart, hi]; rfl
  case after => rw [chart, node_set_self hlt]; rfl
  case same =>
    intro j box hj hn
    rw [chart, node_set_ne (Ne.symm hj)] at hn
    obtain ⟨n, hn', rfl⟩ := Option.map_eq_some_iff.mp hn
    obtain ⟨count, hn'⟩ := hd.fades.node hn'
    rw [chart, hn']
    rfl
  case closed =>
    intro j box b hn
    obtain ⟨n, hn', rfl⟩ := Option.map_eq_some_iff.mp hn
    exact (ht.inv h hi hd).closed hn' b
  case absorbs => exact ht.absorbs
  case eval => exact ht.eval answer

end Round

section Merge

theorem single_eq_some (h : single exprs label = some (some next)) :
    isVerdict label = false ∧ exprs.node label = some next ∧ next.count = 1 := by
  rw [single] at h
  split at h
  case isTrue => cases h
  case isFalse hv =>
    obtain ⟨n, hn, h⟩ := Option.map_eq_some_iff.mp h
    split at h
    case isFalse => cases h
    case isTrue h₁ =>
      cases h
      exact ⟨by simpa using hv, hn, h₁⟩

theorem absorbs_node {n : Node} (h : single exprs label = some (some next)) (hs : next.succ = n.succ)
    (hf : next.fail = n.fail) : Absorbs (chart exprs) n.box (target label) next.expr := by
  obtain ⟨hv, hn, -⟩ := single_eq_some h
  refine .box (m := label) (b := next.box) (target_of_not_verdict hv) (by rw [chart, hn]; rfl) ?_
  rw [Node.box, Node.box, hs, hf]

-- One successor is taken up, and `v` stands for the way to the other one.
theorem takes_next {b v : Bool} {f : Formula TestExpr} {dropped : List Nat}
    (hs : single exprs (if b then expr.succ else expr.fail) = some (some next))
    (hv : (if v then next.succ else next.fail) = if b then expr.fail else expr.succ)
    (hd : dropped.Perm [expr.succ, expr.fail])
    (hf : ∀ answer, f.eval answer =
      (expr.expr.eval answer).bind fun r => if r = b then next.expr.eval answer else some v)
    (hq : f.questions = expr.expr.questions ++ next.expr.questions) :
    Takes exprs expr ⟨⟨f, next.succ, next.fail, expr.count⟩, dropped⟩ [if b then expr.succ else expr.fail]
      fun r => if r = b then next.expr else .const v := by
  obtain ⟨hl, hn, h₁⟩ := single_eq_some hs
  have hm : (if b then expr.succ else expr.fail) ∈ [expr.succ, expr.fail] := by cases b <;> simp
  constructor
  case count => rfl
  case nodup => simp
  case each =>
    intro i hi
    obtain rfl := List.mem_singleton.mp hi
    exact ⟨hm, hl, next, hn, h₁⟩
  case dropped => simpa [List.cons_subset] using hd.mem_iff.mpr hm
  case two => exact hd.length_eq.ge
  case labels =>
    rw [List.flatMap_singleton, hn]
    exact (hd.append_left _).trans List.perm_append_comm
  case absorbs =>
    intro r
    by_cases hr : r = b
    case pos =>
      rw [if_pos hr, hr]
      exact absorbs_node hs rfl rfl
    case neg =>
      rw [if_neg hr]
      refine .const (congrArg target (hv.trans ?_))
      cases b <;> cases r <;> simp_all
  case eval =>
    intro answer
    refine (hf answer).trans (Option.bind_congr fun r _ => ?_)
    split_ifs <;> rfl
  case asked =>
    intro t ht
    rw [hq] at ht
    exact (List.mem_append.mp ht).imp_right fun ht => ⟨_, next, hn, ht⟩

theorem takes_mergeSucc (hs : single exprs expr.succ = some (some next)) (hm : mergeSucc expr next = some m) :
    ∃ taken g, Takes exprs expr m taken g := by
  rw [mergeSucc] at hm
  split_ifs at hm with hf ht <;> cases hm
  case pos =>
    refine ⟨_, _, takes_next (b := true) (v := false) hs hf (.refl _) (fun _ => ?_) rfl⟩
    exact Option.bind_congr fun r _ => by cases r <;> rfl
  case pos =>
    refine ⟨_, _, takes_next (b := true) (v := true) hs ht (.refl _) (fun _ => ?_) (by simp [Formula.questions])⟩
    exact Option.bind_congr fun r _ => by cases r <;> rfl

theorem takes_mergeFail (hs : single exprs expr.fail = some (some next)) (hm : mergeFail expr next = some m) :
    ∃ taken g, Takes exprs expr m taken g := by
  rw [mergeFail] at hm
  split_ifs at hm with ht hf <;> cases hm
  case pos =>
    refine ⟨_, _, takes_next (b := false) (v := true) hs ht (List.Perm.swap ..) (fun _ => ?_) rfl⟩
    exact Option.bind_congr fun r _ => by cases r <;> rfl
  case pos =>
    refine ⟨_, _, takes_next (b := false) (v := false) hs hf (.refl _) (fun _ => ?_) (by simp [Formula.questions])⟩
    exact Option.bind_congr fun r _ => by cases r <;> rfl

theorem takes_mergeBoth {succ fail : Node} (h : Inv exprs refs) (hi : exprs.node i = some expr)
    (hs : single exprs expr.succ = some (some succ)) (hf : single exprs expr.fail = some (some fail))
    (hm : mergeBoth expr succ fail = some m) : ∃ taken g, Takes exprs expr m taken g := by
  obtain ⟨hvs, hns, hcs⟩ := single_eq_some hs
  obtain ⟨hvf, hnf, hcf⟩ := single_eq_some hf
  -- Two labels lead to a node that is both successors.
  have hne : expr.succ ≠ expr.fail := by
    intro he
    have h₁ := eq_one_of_ofNat (h.le _) ((h.count hns).symm.trans hcs)
    have h₂ := h.labels expr.succ
    have h₃ : [expr.succ, expr.fail].Sublist (labels exprs) :=
      List.sublist_flatten_of_mem (List.mem_map_of_mem (List.mem_of_getElem? (getElem?_of_node hi)))
    have h₄ := h₃.count_le expr.succ
    rw [← he] at h₄
    simp at h₄
    omega
  rw [mergeBoth] at hm
  split_ifs at hm with he
  cases hm
  refine ⟨[expr.succ, expr.fail], fun r => if r then succ.expr else fail.expr, rfl, by simpa using hne, ?_,
    by simp, by simp, ?_, ?_, ?_, ?_⟩
  · intro j hj
    rcases List.mem_cons.mp hj with rfl | hj'
    case inl => exact ⟨hj, hvs, succ, hns, hcs⟩
    case inr =>
      obtain rfl := List.mem_singleton.mp hj'
      exact ⟨hj, hvf, fail, hnf, hcf⟩
  · rw [List.flatMap_cons, List.flatMap_singleton, hns, hnf, own, own, own, own, he.1, he.2]
    have hp : ([fail.succ, fail.fail] ++ [expr.succ, expr.fail]).Perm ([expr.succ, expr.fail] ++ [fail.succ, fail.fail]) :=
      List.perm_append_comm
    exact hp.append_right [fail.succ, fail.fail]
  · rintro (_ | _)
    · exact absorbs_node hf he.1.symm rfl
    · exact absorbs_node hs rfl he.2
  · intro answer
    exact Option.bind_congr fun r _ => by cases r <;> rfl
  · intro t ht
    rw [Formula.questions, List.mem_append, List.mem_append] at ht
    rcases ht with (ht | ht) | ht
    · exact .inl ht
    · exact .inr ⟨_, succ, hns, ht⟩
    · exact .inr ⟨_, fail, hnf, ht⟩

theorem Inv.single_isSome (h : Inv exprs refs) (hi : exprs.node i = some expr)
    (hl : label ∈ [expr.succ, expr.fail]) : ∃ o, single exprs label = some o := by
  rw [single]
  by_cases hv : isVerdict label
  case pos => exact ⟨none, if_pos hv⟩
  case neg =>
    obtain ⟨n, hn⟩ := Option.isSome_iff_exists.mp (h.live_label hi hl (by simpa using hv))
    exact ⟨if n.count = 1 then some n else none, by rw [if_neg hv, hn]; rfl⟩

-- No null pointer is met, and what is found can be taken up.
theorem findMerge_takes (h : Inv exprs refs) (hi : exprs.node i = some expr) :
    ∃ o, findMerge exprs expr = some o ∧ ∀ {m}, o = some m → ∃ taken g, Takes exprs expr m taken g := by
  obtain ⟨succ, hs⟩ := h.single_isSome hi List.mem_cons_self
  obtain ⟨fail, hf⟩ := h.single_isSome hi (List.mem_cons_of_mem _ (List.mem_singleton_self _))
  simp only [findMerge, hs, hf, Option.bind_eq_bind, Option.bind_some]
  split
  case h_1 m hm =>
    refine ⟨_, rfl, fun he => ?_⟩
    cases he
    obtain ⟨next, rfl, hm⟩ := Option.bind_eq_some_iff.mp hm
    exact takes_mergeSucc hs hm
  case h_2 =>
    split
    case h_1 m hm =>
      refine ⟨_, rfl, fun he => ?_⟩
      cases he
      obtain ⟨next, rfl, hm⟩ := Option.bind_eq_some_iff.mp hm
      exact takes_mergeFail hf hm
    case h_2 =>
      refine ⟨_, rfl, fun he => ?_⟩
      obtain ⟨s, rfl, hm⟩ := Option.bind_eq_some_iff.mp he
      obtain ⟨f, rfl, hm⟩ := Option.bind_eq_some_iff.mp hm
      exact takes_mergeBoth h hi hs hf hm

end Merge

section Loops

theorem single_set (h : i ≠ label) {o : Option Node} : single (exprs.set i o) label = single exprs label := by
  rw [single, single, node_set_ne h]

theorem derefExpr_set (h : i ≠ label) {o : Option Node} :
    derefExpr (exprs.set i o) label = (derefExpr exprs label).map (·.set i o) := by
  rw [derefExpr, derefExpr, node_set_ne h]
  split
  case isTrue  => rfl
  case isFalse =>
    cases exprs.node label
    case none   => rfl
    case some n => exact congrArg some (List.set_comm _ _ h)

theorem foldlM_derefExpr_set {dropped : List Nat} (h : i ∉ dropped) {o : Option Node} :
    dropped.foldlM derefExpr (exprs.set i o) = (dropped.foldlM derefExpr exprs).map (·.set i o) := by
  induction dropped generalizing exprs
  case nil => rfl
  case cons label dropped ih =>
    rw [List.mem_cons, not_or] at h
    rw [List.foldlM_cons, List.foldlM_cons, derefExpr_set h.left]
    cases derefExpr exprs label
    case none => rfl
    case some exprs => exact ih h.right

-- What a part of the loop leaves behind.
structure Coalesced (exprs exprs' : Exprs) : Prop where
  length : exprs'.length = exprs.length
  inv    : ∃ refs, Inv exprs' refs
  keeps  : Flowchart.Keeps (chart exprs) (chart exprs')
  asks   : ∀ {i n t}, exprs'.node i = some n → t ∈ n.expr.questions →
    ∃ j n', exprs.node j = some n' ∧ t ∈ n'.expr.questions

theorem Coalesced.refl (h : Inv exprs refs) : Coalesced exprs exprs :=
  ⟨rfl, ⟨refs, h⟩, .refl, fun hn ht => ⟨_, _, hn, ht⟩⟩

theorem Coalesced.trans {exprs'' : Exprs} (h₁ : Coalesced exprs exprs') (h₂ : Coalesced exprs' exprs'') :
    Coalesced exprs exprs'' where
  length := h₂.length.trans h₁.length
  inv    := h₂.inv
  keeps  := h₁.keeps.trans h₂.keeps
  asks hn ht := by
    obtain ⟨j, n, hn, ht⟩ := h₂.asks hn ht
    exact h₁.asks hn ht

theorem Inv.ne_label (h : Inv exprs refs) (hi : exprs.node i = some expr) (hl : label ∈ [expr.succ, expr.fail]) :
    i ≠ label := by
  rintro rfl
  exact Nat.lt_irrefl i (h.forward hi hl (h.not_verdict hi))

theorem alloc_of_le {k room : Nat} (h : k * exprSize ≤ room) : alloc k room = some (room - k * exprSize) :=
  if_pos h

theorem alloc_alloc {a b room : Nat} : (alloc a room).bind (alloc b) = alloc (a + b) room := by
  rw [alloc, alloc, Nat.add_mul]
  by_cases ha : a * exprSize ≤ room
  case neg => rw [if_neg ha, if_neg (by omega), Option.bind_none]
  case pos =>
    rw [if_pos ha, Option.bind_some, alloc, Nat.sub_sub]
    exact if_congr (by omega) rfl rfl

-- The node is only written back at the end of the loop, but nothing reads it before. Each of the `k`
-- rounds needs an expression and gets rid of two labels.
theorem coalesceFrom_coalesced (hi : i < exprs.length) (h : Inv (exprs.set i (some expr)) refs)
    (hf : (labels (exprs.set i (some expr))).length < 2 * fuel) :
    ∃ expr' exprs' k, (∀ {room}, k * exprSize ≤ room →
        coalesceFrom fuel room exprs expr = some (some expr', exprs', room - k * exprSize)) ∧
      Coalesced (exprs.set i (some expr)) (exprs'.set i (some expr')) ∧
      (labels (exprs'.set i (some expr'))).length + 2 * k ≤ (labels (exprs.set i (some expr))).length := by
  induction fuel generalizing exprs expr refs
  case zero => omega
  case succ fuel ih =>
    have hself : Exprs.node (exprs.set i (some expr)) i = some expr := node_set_self hi
    obtain ⟨o, ho, ht⟩ := findMerge_takes h hself
    have hfind : findMerge exprs expr = some o := by
      rw [← ho, findMerge, findMerge, single_set (h.ne_label hself (by simp)),
        single_set (h.ne_label hself (by simp))]
    simp only [coalesceFrom, hfind]
    cases o
    case none => exact ⟨expr, exprs, 0, by simp, .refl h, Nat.le_refl _⟩
    case some m =>
      obtain ⟨taken, g, ht⟩ := ht rfl
      obtain ⟨exprs₁, he₁, hd⟩ := foldlM_derefExpr_drops h.toCounted (ht.count_dropped_le h hself)
      rw [foldlM_derefExpr_set (ht.not_mem_dropped h hself)] at he₁
      obtain ⟨exprs₂, he₂, rfl⟩ := Option.map_eq_some_iff.mp he₁
      have hlen : exprs₂.length = exprs.length := by simpa using hd.fades.length
      have hinv := ht.inv h hself hd
      have hkeeps := ht.keeps h hself hd
      have hasks {j n t} := ht.asks (j := j) (n := n) (t := t) hself hd
      have hsub := (ht.labels_subperm h hself hd).length_le
      simp only [List.set_set] at hinv hkeeps hsub hasks
      rw [List.length_append] at hsub
      have htwo := ht.two
      obtain ⟨expr', exprs', k, hc, hco, hk⟩ := ih (hlen ▸ hi) hinv (by omega)
      refine ⟨expr', exprs', k + 1, fun {room} hr => ?_, .trans ⟨?_, ⟨_, hinv⟩, hkeeps, hasks⟩ hco,
        by omega⟩
      · rw [Nat.add_mul] at hr ⊢
        rw [Option.bind_eq_bind, Option.bind_some, alloc_of_le (by omega)]
        simp only [he₂, Option.bind_eq_bind, Option.bind_some]
        rw [hc (by omega), Nat.sub_sub, Nat.add_comm (1 * exprSize)]
      · rw [List.length_set, List.length_set, hlen]

theorem length_labels_le : (labels exprs).length ≤ 2 * exprs.length := by
  induction exprs
  case nil => exact Nat.le_refl 0
  case cons o exprs ih =>
    rw [labels, List.flatMap_cons, List.length_append]
    rw [labels] at ih
    cases o <;> simp only [own, List.length_nil, List.length_cons] <;> omega

theorem set_of_node (h : exprs.node i = some expr) : exprs.set i (some expr) = exprs := by
  obtain ⟨hi, he⟩ := List.getElem?_eq_some_iff.mp (getElem?_of_node h)
  rw [← he, List.set_getElem_self]

theorem coalesceAndOr_coalesced (h : Inv exprs refs) :
    ∃ exprs' k, (∀ {room}, k * exprSize ≤ room →
        coalesceAndOr room exprs i = some (exprs', room - k * exprSize)) ∧
      Coalesced exprs exprs' ∧ (labels exprs').length + 2 * k ≤ (labels exprs).length := by
  cases hn : exprs.node i
  case none => exact ⟨exprs, 0, by simp [coalesceAndOr, hn], .refl h, Nat.le_refl _⟩
  case some expr =>
    by_cases h₀ : expr.count = 0
    case pos => exact ⟨exprs, 0, by simp [coalesceAndOr, hn, h₀], .refl h, Nat.le_refl _⟩
    case neg =>
      have hs := set_of_node hn
      have hfuel : (labels (exprs.set i (some expr))).length < 2 * (exprs.length + 1) := by
        have hl : (labels exprs).length ≤ 2 * exprs.length := length_labels_le
        rw [hs]
        omega
      obtain ⟨expr', exprs', k, hc, hco, hk⟩ := coalesceFrom_coalesced (lt_of_node hn) (hs.symm ▸ h) hfuel
      rw [hs] at hco hk
      refine ⟨exprs'.set i (some expr'), k, fun hr => ?_, hco, hk⟩
      simp only [coalesceAndOr, hn, if_neg h₀, hc hr]
      rfl

-- Induction on the number of nodes that are left.
theorem coalesceAll_coalesced (h : Inv exprs refs) :
    ∃ exprs' k, (∀ {room}, k * exprSize ≤ room →
        coalesceAll i room exprs = some (exprs', room - k * exprSize)) ∧
      Coalesced exprs exprs' ∧ (labels exprs').length + 2 * k ≤ (labels exprs).length := by
  induction i generalizing exprs refs
  case zero => exact ⟨exprs, 0, by simp [coalesceAll], .refl h, Nat.le_refl _⟩
  case succ i ih =>
    obtain ⟨exprs₁, k₁, he₁, hc₁, hk₁⟩ := coalesceAndOr_coalesced (i := i) h
    obtain ⟨refs₁, h₁⟩ := hc₁.inv
    obtain ⟨exprs₂, k₂, he₂, hc₂, hk₂⟩ := ih h₁
    refine ⟨exprs₂, k₁ + k₂, fun {room} hr => ?_, hc₁.trans hc₂, by omega⟩
    rw [Nat.add_mul] at hr ⊢
    have hr₁ : k₁ * exprSize ≤ room := by omega
    have hr₂ : k₂ * exprSize ≤ room - k₁ * exprSize := by omega
    simp only [coalesceAll, he₁ hr₁, Option.bind_some, he₂ hr₂, Nat.sub_sub]

theorem yields_node {answer : TestExpr → Option Bool} {r : Bool} (hn : exprs.node i = some expr)
    (h : Yields answer (chart exprs) (.node i) r) : ∃ b, expr.expr.eval answer = some b ∧
      Yields answer (chart exprs) (target (if b then expr.succ else expr.fail)) r := by
  obtain _ | _ | ⟨hb, he, hy⟩ := h
  rw [chart, hn] at hb
  cases hb
  exact ⟨_, he, hy⟩

-- What a part of the expression has to do with the label it was made for.
structure Unfolds (exprs : Exprs) (label : Nat) (f : Formula TestExpr) : Prop where
  eval : ∀ {answer r}, Yields answer (chart exprs) (target label) r → f.eval answer = some r
  asks : ∀ {t}, t ∈ f.questions → ∃ i n, exprs.node i = some n ∧ t ∈ n.expr.questions

theorem verdictExpr_unfolds (hv : isVerdict label) : ∃ f, verdictExpr label = some f ∧ Unfolds exprs label f := by
  rw [verdictExpr]
  by_cases ha : label = resultAccept
  case pos =>
    refine ⟨.const true, if_pos ha, fun {answer r} h => ?_, by simp [Formula.questions]⟩
    rw [target, if_pos ha] at h
    cases h
    rfl
  case neg =>
    have hr : label = resultReject := by simpa [isVerdict, ha] using hv
    refine ⟨.const false, by rw [if_neg ha, if_pos hr], fun {answer r} h => ?_, by simp [Formula.questions]⟩
    rw [target, if_neg ha, if_pos hr] at h
    cases h
    rfl

theorem verdictExpr_eq_none (hv : isVerdict label = false) : verdictExpr label = none := by
  obtain ⟨ha, hr⟩ := isVerdict_eq_false.mp hv
  rw [verdictExpr, if_neg ha, if_neg hr]

-- The outcome of unfolding a label: with room for `k` expressions it is `f`, with less there is none.
def Makes (exprs : Exprs) (fuel label : Nat) (f : Formula TestExpr) (k : Nat) : Prop :=
  ∀ room, coalesceExpr exprs fuel label room = (alloc k room).map (f, ·)

theorem makes_verdict (hv : isVerdict label) :
    ∃ f k, Makes exprs fuel label f k ∧ Unfolds exprs label f := by
  obtain ⟨f, hf, hu⟩ : ∃ f, verdictExpr label = some f ∧ Unfolds exprs label f := verdictExpr_unfolds hv
  refine ⟨f, 0, fun room => ?_, hu⟩
  cases fuel <;> simp [coalesceExpr, hf, alloc]

theorem Makes.question {th el : Formula TestExpr} {a b : Nat} (hv : isVerdict label = false)
    (hn : exprs.node label = some expr) (hne : expr.succ ≠ expr.fail)
    (hth : Makes exprs fuel expr.succ th a) (hel : Makes exprs fuel expr.fail el b) :
    if th = .const true ∧ el = .const false then Makes exprs (fuel + 1) label expr.expr (a + b)
    else Makes exprs (fuel + 1) label (.ite expr.expr th el) (a + b + 1) := by
  have hc room : coalesceExpr exprs (fuel + 1) label room = (alloc (a + b) room).bind fun room =>
      if th = .const true ∧ el = .const false then some (expr.expr, room)
      else (alloc 1 room).map (.ite expr.expr th el, ·) := by
    simp only [coalesceExpr, verdictExpr_eq_none hv, hn, if_neg hne, hth room, Option.bind_eq_bind,
      Option.bind_some]
    rw [← alloc_alloc]
    cases alloc a room
    case none => rfl
    case some room =>
      simp only [Option.map_some, Option.bind_some, hel room]
      cases alloc b room <;> rfl
  split_ifs with he
  case pos =>
    intro room
    rw [hc]
    simp only [he, and_self, if_true]
    cases alloc (a + b) room <;> rfl
  case neg =>
    intro room
    rw [hc, ← alloc_alloc (a := a + b)]
    simp only [he, if_false]
    cases alloc (a + b) room <;> rfl

section Unfolds

variable {th el : Formula TestExpr} (hv : isVerdict label = false) (hn : exprs.node label = some expr)
  (hth : Unfolds exprs expr.succ th)

include hv hn hth

-- A test that leads to the same label either way is left out, so that its answer may be missing.
theorem Unfolds.skip (he : expr.succ = expr.fail) : Unfolds exprs label th where
  eval hy := by
    obtain ⟨b, -, hy⟩ := yields_node hn (target_of_not_verdict hv ▸ hy)
    rw [← he, ite_self] at hy
    exact hth.eval hy
  asks := hth.asks

variable (hel : Unfolds exprs expr.fail el)

include hel

theorem Unfolds.test (ht : th = .const true) (he : el = .const false) :
    Unfolds exprs label expr.expr where
  eval hy := by
    obtain ⟨b, hb, hy⟩ := yields_node hn (target_of_not_verdict hv ▸ hy)
    rw [ht] at hth
    rw [he] at hel
    cases b
    case true  => exact hb.trans (hth.eval hy)
    case false => exact hb.trans (hel.eval hy)
  asks ht := ⟨label, expr, hn, ht⟩

theorem Unfolds.question : Unfolds exprs label (.ite expr.expr th el) where
  eval hy := by
    obtain ⟨b, hb, hy⟩ := yields_node hn (target_of_not_verdict hv ▸ hy)
    rw [Formula.eval, hb, Option.bind_some]
    cases b
    case true  => exact hth.eval hy
    case false => exact hel.eval hy
  asks ht := by
    rw [Formula.questions, List.mem_append, List.mem_append] at ht
    rcases ht with (ht | ht) | ht
    · exact ⟨label, expr, hn, ht⟩
    · exact hth.asks ht
    · exact hel.asks ht

end Unfolds

-- What is unfolded means what the nodes mean.
theorem coalesceExpr_unfolds (h : Inv exprs refs) (hl : isVerdict label = false → (exprs.node label).isSome)
    (hf : exprs.length ≤ fuel + label) :
    ∃ f k, Makes exprs fuel label f k ∧ Unfolds exprs label f := by
  induction fuel generalizing label
  case zero =>
    by_cases hv : isVerdict label
    case pos => exact makes_verdict hv
    case neg =>
      obtain ⟨n, hn⟩ := Option.isSome_iff_exists.mp (hl (by simpa using hv))
      have := lt_of_node hn
      omega
  case succ fuel ih =>
    by_cases hv : isVerdict label
    case pos => exact makes_verdict hv
    case neg =>
      have hv : isVerdict label = false := by simpa using hv
      obtain ⟨expr, hn⟩ := Option.isSome_iff_exists.mp (hl hv)
      have hnext {l} (hm : l ∈ [expr.succ, expr.fail]) :
          ∃ f k, Makes exprs fuel l f k ∧ Unfolds exprs l f := by
        by_cases hvl : isVerdict l
        case pos => exact makes_verdict hvl
        case neg =>
          have hvl : isVerdict l = false := by simpa using hvl
          have := h.forward hn hm hvl
          exact ih (h.live_label hn hm) (by omega)
      obtain ⟨th, a, hth, hths⟩ := hnext List.mem_cons_self
      obtain ⟨el, b, hel, hels⟩ := hnext (List.mem_cons_of_mem _ (List.mem_singleton_self _))
      by_cases he : expr.succ = expr.fail
      case pos =>
        refine ⟨th, a, fun room => ?_, hths.skip hv hn he⟩
        simp only [coalesceExpr, verdictExpr_eq_none hv, hn, if_pos he, Option.bind_eq_bind,
          Option.bind_some, hth room]
      case neg =>
        have hm := Makes.question hv hn he hth hel
        split_ifs at hm with hc
        case pos => exact ⟨_, _, hm, hths.test hv hn hels hc.1 hc.2⟩
        case neg => exact ⟨_, _, hm, hths.question hv hn hels⟩

end Loops

end Coalesce

section Decompile

variable {exprs exprs' : Exprs} {refs : Nat → Nat} {object : List Insn} {insn : Insn} {x : Input}
  {i j label : Nat} {n : Node} {r : Bool}

def Node.uncounted (n : Node) : Node :=
  { n with count := 0 }

-- The nodes without their counts.
def bare (exprs : Exprs) : Exprs :=
  exprs.map (Option.map Node.uncounted)

theorem node_bare : (bare exprs).node i = (exprs.node i).map Node.uncounted := by
  rw [Exprs.node, Exprs.node, bare, List.getElem?_map]
  cases exprs[i]? <;> rfl

theorem labels_bare : labels (bare exprs) = labels exprs := by
  rw [labels, bare, List.flatMap_map, labels]
  refine List.flatMap_congr fun o _ => ?_
  cases o <;> rfl

theorem chart_bare : chart (bare exprs) = chart exprs := by
  funext i
  rw [chart, chart, node_bare, Option.map_map]
  rfl

-- The nodes know how many of the labels lead to them.
def Tallied (exprs : Exprs) (ls : List Nat) : Prop :=
  ∀ {i n}, exprs.node i = some n → n.count = .ofNat 8 (ls.count i)

theorem Tallied.perm {ls ls' : List Nat} (h : Tallied exprs ls) (hp : ls.Perm ls') : Tallied exprs ls' :=
  fun hn => hp.count_eq _ ▸ h hn

theorem refer_tallied {ls : List Nat} (h : Tallied exprs ls) (hs : exprs.length ≤ filterMaxLen)
    (hl : isVerdict label = false → (exprs.node label).isSome) :
    ∃ exprs', refer exprs label = some exprs' ∧ bare exprs' = bare exprs ∧ Tallied exprs' (label :: ls) := by
  by_cases hv : isVerdict label
  case pos =>
    refine ⟨exprs, if_pos hv, rfl, fun {i n} hn => ?_⟩
    have hne : label ≠ i := by
      rintro rfl
      have := isVerdict_eq_false.mpr (not_verdict (Nat.lt_of_lt_of_le (lt_of_node hn) hs))
      simp [this] at hv
    rw [List.count_cons_of_ne hne]
    exact h hn
  case neg =>
    obtain ⟨n, hn⟩ := Option.isSome_iff_exists.mp (hl (by simpa using hv))
    refine ⟨exprs.set label (some { n with count := n.count + 1 }), ?_, ?_, fun {i n'} hn' => ?_⟩
    · rw [refer, if_neg hv, hn]
      rfl
    · rw [bare, List.map_set]
      exact set_of_node (by rw [← bare, node_bare, hn]; rfl)
    · by_cases hi : label = i
      case neg =>
        rw [List.count_cons_of_ne hi]
        exact h ((node_set_ne hi).symm.trans hn')
      case pos =>
        subst hi
        cases (node_set_self (lt_of_node hn)).symm.trans hn'
        rw [List.count_cons_self, BitVec.ofNat_add, ← h hn]
        rfl

-- The labels of a filter, and the one of its first test.
def references (object : List Insn) : List Nat :=
  0 :: object.flatMap fun insn => [insn.success, insn.failure]

-- The filters that can be formatted. There are at most 256 labels that lead to any one test: a filter
-- of up to 128 tests has no more than that.
structure Formattable (object : List Insn) : Prop extends Proper object where
  known : ∀ insn ∈ object, insn.field ≠ .other ∧ insn.test ≠ .other
  refs  : ∀ i, (references object).count i ≤ 256

-- A filter of at most 127 tests has few enough references.
theorem formattable_of_length (hp : Proper object) (hk : ∀ insn ∈ object, insn.field ≠ .other ∧ insn.test ≠ .other)
    (hl : object.length ≤ 127) : Formattable object where
  toProper := hp
  known    := hk
  refs i   := by
    have hlen : (references object).length = 2 * object.length + 1 := by simp [references, Nat.mul_comm]
    exact List.count_le_length.trans (by omega)

theorem decompileTest_some (hf : insn.field ≠ .other) (ht : insn.test ≠ .other) :
    ∃ t, decompileTest insn = some ⟨.ask t, insn.success, insn.failure, 0⟩ := by
  rw [decompileTest, if_neg (by simp [hf, ht])]
  split_ifs
  · exact ⟨_, rfl⟩
  · exact ⟨_, rfl⟩

-- The nodes from `i` on, without their counts.
def decompiled (object : List Insn) (i : Nat) : Exprs :=
  List.replicate i none ++ (object.drop i).map decompileTest

theorem decompiled_succ (hi : object[i]? = some insn) :
    (decompiled object (i + 1)).set i (decompileTest insn) = decompiled object i := by
  obtain ⟨hlt, he⟩ := List.getElem?_eq_some_iff.mp hi
  rw [decompiled, decompiled, List.drop_eq_getElem_cons hlt, he, List.map_cons, List.replicate_succ',
    List.append_assoc, List.singleton_append, List.set_append_right _ _ (by simp)]
  simp

section

variable (hf : Formattable object)
include hf

theorem own_decompileTest (hm : insn ∈ object) :
    own (decompileTest insn) = [insn.success, insn.failure] := by
  obtain ⟨t, ht⟩ := decompileTest_some (hf.known insn hm).1 (hf.known insn hm).2
  rw [ht]
  rfl

theorem labels_decompiled :
    labels (decompiled object i) = (object.drop i).flatMap fun insn => [insn.success, insn.failure] := by
  rw [labels, decompiled, List.flatMap_append, List.flatMap_replicate, List.flatMap_map]
  simp only [own, List.flatten_replicate_nil, List.nil_append]
  exact List.flatMap_congr fun insn hm => own_decompileTest hf (List.mem_of_mem_drop hm)

omit hf in
theorem node_decompiled (hi : i ≤ j) (hj : object[j]? = some insn) :
    (decompiled object i).node j = decompileTest insn := by
  rw [Exprs.node, decompiled, List.getElem?_append_right (by simpa using hi), List.length_replicate,
    List.getElem?_map, List.getElem?_drop, Nat.add_sub_cancel' hi, hj]
  rfl

theorem isSome_decompiled (hi : i ≤ j) (hj : j < object.length) : ((decompiled object i).node j).isSome := by
  have hm : object[j] ∈ object := List.getElem_mem hj
  obtain ⟨t, ht⟩ := decompileTest_some (hf.known _ hm).1 (hf.known _ hm).2
  rw [node_decompiled hi (List.getElem?_eq_getElem hj), ht]
  rfl

-- The labels of the tests from `i` on are later than `i`.
theorem lt_of_mem_labels (hm : label ∈ (object.drop i).flatMap fun insn => [insn.success, insn.failure])
    (hv : isVerdict label = false) : i < label ∧ label < object.length := by
  obtain ⟨insn, hi, hl⟩ := List.mem_flatMap.mp hm
  obtain ⟨k, hk⟩ := List.getElem?_of_mem hi
  rw [List.getElem?_drop] at hk
  obtain ⟨ha, hr⟩ := isVerdict_eq_false.mp hv
  have hfwd (b : Bool) := hf.forward (b := b) hk
  rcases List.mem_cons.mp hl with rfl | hl
  case inl =>
    rcases hfwd true with h | h | h
    · exact absurd h ha
    · exact absurd h hr
    · exact ⟨Nat.lt_of_le_of_lt (Nat.le_add_right ..) h.1, h.2⟩
  case inr =>
    obtain rfl := List.mem_singleton.mp hl
    rcases hfwd false with h | h | h
    · exact absurd h ha
    · exact absurd h hr
    · exact ⟨Nat.lt_of_le_of_lt (Nat.le_add_right ..) h.1, h.2⟩

omit hf in
theorem length_of_bare (hi : i ≤ object.length) (hb : bare exprs = decompiled object i) :
    exprs.length = object.length := by
  have := congrArg List.length hb
  simp only [bare, decompiled, List.length_map, List.length_append, List.length_replicate,
    List.length_drop] at this
  omega

-- A test that is decompiled leads to nodes that are there, and to which nothing has led back yet.
theorem decompile_step (hi : object[i]? = some insn) (hd : decompileTest insn = some n)
    (hb : bare exprs = decompiled object (i + 1)) (ht : Tallied exprs (labels (decompiled object (i + 1)))) :
    ∃ exprs₁ exprs₂, refer (exprs.set i (some n)) n.succ = some exprs₁ ∧ refer exprs₁ n.fail = some exprs₂ ∧
      bare exprs₂ = decompiled object i ∧ Tallied exprs₂ (labels (decompiled object i)) := by
  obtain ⟨hlt, he⟩ := List.getElem?_eq_some_iff.mp hi
  have hlen := length_of_bare hlt hb
  have hlabels : labels (decompiled object i) = n.succ :: n.fail :: labels (decompiled object (i + 1)) := by
    have := own_decompileTest hf (List.mem_of_getElem? hi)
    rw [labels_decompiled hf, labels_decompiled hf, List.drop_eq_getElem_cons hlt, List.flatMap_cons, he, ← this, hd]
    rfl
  have hlive {e : Exprs} {l : Nat} (he : bare e = decompiled object i) (hl : l ∈ [n.succ, n.fail])
      (hv : isVerdict l = false) : (e.node l).isSome := by
    have hl : l ∈ labels (decompiled object i) := hlabels ▸ List.mem_append_left _ hl
    rw [labels_decompiled hf] at hl
    have hs := isSome_decompiled hf (lt_of_mem_labels hf hl hv).1.le (lt_of_mem_labels hf hl hv).2
    rwa [← he, node_bare, Option.isSome_map] at hs
  have hb₀ : bare (exprs.set i (some n)) = decompiled object i := by
    rw [bare, List.map_set, ← bare, hb, ← decompiled_succ hi, hd]
    obtain ⟨t, ht⟩ := decompileTest_some (hf.known _ (List.mem_of_getElem? hi)).1
      (hf.known _ (List.mem_of_getElem? hi)).2
    cases hd.symm.trans ht
    rfl
  have ht₀ : Tallied (exprs.set i (some n)) (labels (decompiled object (i + 1))) := by
    intro j n' hn
    by_cases hj : i = j
    case neg => exact ht ((node_set_ne hj).symm.trans hn)
    case pos =>
      subst hj
      cases (node_set_self (hlen ▸ hlt)).symm.trans hn
      obtain ⟨t, ht⟩ := decompileTest_some (hf.known _ (List.mem_of_getElem? hi)).1
        (hf.known _ (List.mem_of_getElem? hi)).2
      cases hd.symm.trans ht
      rw [List.count_eq_zero_of_not_mem]
      · rfl
      intro hl
      rw [labels_decompiled hf] at hl
      have hv := isVerdict_eq_false.mpr (not_verdict (Nat.lt_of_lt_of_le hlt hf.le_max))
      exact Nat.lt_irrefl i (Nat.lt_of_succ_lt (lt_of_mem_labels hf hl hv).1)
  have hsmall {e : Exprs} (he : bare e = decompiled object i) : e.length ≤ filterMaxLen :=
    length_of_bare hlt.le he ▸ hf.le_max
  obtain ⟨exprs₁, he₁, hb₁, ht₁⟩ := refer_tallied ht₀ (hsmall hb₀) (hlive hb₀ (l := n.succ) (by simp))
  have hb₁ := hb₁.trans hb₀
  obtain ⟨exprs₂, he₂, hb₂, ht₂⟩ := refer_tallied ht₁ (hsmall hb₁) (hlive hb₁ (l := n.fail) (by simp))
  exact ⟨exprs₁, exprs₂, he₁, he₂, hb₂.trans hb₁, ht₂.perm (hlabels ▸ List.Perm.swap ..)⟩

theorem decompileFrom_decompiled (hi : i ≤ object.length) (hb : bare exprs = decompiled object i)
    (ht : Tallied exprs (labels (decompiled object i))) :
    ∃ exprs' k, (∀ {room}, k * exprSize ≤ room →
        decompileFrom object i room exprs = some (some (exprs', room - k * exprSize))) ∧
      k ≤ 3 * i ∧ bare exprs' = decompiled object 0 ∧ Tallied exprs' (labels (decompiled object 0)) := by
  induction i generalizing exprs
  case zero => exact ⟨exprs, 0, by simp [decompileFrom], Nat.le_refl 0, hb, ht⟩
  case succ i ih =>
    have hget : object[i]? = some object[i] := List.getElem?_eq_getElem hi
    have hm : object[i] ∈ object := List.getElem_mem hi
    have hthree : testExprs object[i] ≤ 3 := by
      rw [testExprs]
      split_ifs <;> omega
    obtain ⟨t, hd⟩ := decompileTest_some (hf.known _ hm).1 (hf.known _ hm).2
    obtain ⟨exprs₁, exprs₂, he₁, he₂, hb₂, ht₂⟩ := decompile_step hf hget hd hb ht
    obtain ⟨exprs', k, he', hk, h'⟩ := ih (Nat.le_of_succ_le hi) hb₂ ht₂
    refine ⟨exprs', testExprs object[i] + k, fun {room} hr => ?_, by omega, h'⟩
    rw [Nat.add_mul] at hr ⊢
    have hr₁ : testExprs object[i] * exprSize ≤ room := by omega
    have hr₂ : k * exprSize ≤ room - testExprs object[i] * exprSize := by omega
    simp only [decompileFrom, hget, Option.bind_some, hd, alloc_of_le hr₁, Option.map_some, he₁, he₂,
      Option.bind_eq_bind, he' hr₂, Nat.sub_sub]

-- The array before anything is coalesced.
theorem inv_decompiled : ∃ exprs exprs' k, (∀ {room}, k * exprSize ≤ room → decompileFrom object
      object.length room (List.replicate object.length none) = some (some (exprs, room - k * exprSize))) ∧
    k ≤ 3 * object.length ∧ refer exprs 0 = some exprs' ∧ bare exprs' = decompiled object 0 ∧
    ∃ refs, Inv exprs' refs := by
  have hb₀ : bare (List.replicate object.length none) = decompiled object object.length := by
    simp [bare, decompiled]
  have ht₀ : Tallied (List.replicate object.length none) (labels (decompiled object object.length)) := by
    intro i n hn
    rw [Exprs.node, List.getElem?_replicate] at hn
    split_ifs at hn <;> cases hn
  obtain ⟨exprs, k, he, hk, hb, ht⟩ := decompileFrom_decompiled hf (Nat.le_refl _) hb₀ ht₀
  have hlen := length_of_bare (Nat.zero_le _) hb
  have hlive {e : Exprs} (he : bare e = decompiled object 0) {j : Nat} (hj : j < object.length) :
      (e.node j).isSome := by
    have hs := isSome_decompiled hf (Nat.zero_le j) hj
    rwa [← he, node_bare, Option.isSome_map] at hs
  obtain ⟨exprs', he', hb', ht'⟩ := refer_tallied ht (hlen ▸ hf.le_max) fun _ => hlive hb hf.nonempty
  have hb' := hb'.trans hb
  have hlabels : labels exprs' = object.flatMap fun insn => [insn.success, insn.failure] := by
    rw [← labels_bare, hb', labels_decompiled hf, List.drop_zero]
  refine ⟨exprs, exprs', k, he, hk, he', hb', ((references object).count ·), ?_⟩
  have hlen' := length_of_bare (Nat.zero_le _) hb'
  have hrefs : references object = 0 :: labels exprs' := by rw [references, hlabels]
  constructor
  case toCounted =>
    refine ⟨hlen' ▸ hf.le_max, fun hn => ?_, hf.refs, fun {i} hi hv => ?_⟩
    · rw [hrefs, ← labels_bare, hb']
      exact ht' hn
    · rcases List.mem_cons.mp (List.count_pos_iff.mp hi) with rfl | hl
      case inl => exact hlive hb' hf.nonempty
      case inr => exact hlive hb' (lt_of_mem_labels (i := 0) hf (by simpa using hl) hv).2
  case labels =>
    intro i
    rw [hrefs, List.count_cons]
    by_cases hi : i = 0
    case pos => simp [hi]
    case neg => rw [if_neg hi, if_neg (by simpa using Ne.symm hi)]
  case forward =>
    intro i n label hn hl hv
    have hi : i < object.length := hlen' ▸ lt_of_node hn
    have hnode : (bare exprs').node i = some n.uncounted := by rw [node_bare, hn]; rfl
    rw [hb', node_decompiled (Nat.zero_le i) (List.getElem?_eq_getElem hi)] at hnode
    have hown := own_decompileTest hf (List.getElem_mem hi)
    rw [hnode] at hown
    have hl : label ∈ [object[i].success, object[i].failure] := hown ▸ hl
    refine (lt_of_mem_labels (i := i) hf ?_ hv).1
    rw [List.drop_eq_getElem_cons hi, List.flatMap_cons]
    exact List.mem_append_left _ hl

end

section Meaning

-- The sign of a number that is compared with data of the packet is lost.
def Unsigned (object : List Insn) : Prop :=
  ∀ insn ∈ object, isArray insn.field → insn.neg = false

theorem answer_decompileTest {t : TestExpr} {s f : Nat} {c : BitVec 8}
    (hd : decompileTest insn = some ⟨.ask t, s, f, c⟩) (hn : isArray insn.field → insn.neg = false) :
    answer x t.insn = answer x insn := by
  rw [decompileTest] at hd
  split_ifs at hd with ho ha <;> cases hd
  case neg =>
    have hfield : isArray insn.field = false := by simpa using ha
    simp only [answer, TestExpr.insn, emitTest, kindToField, makeVar, emitArg, hfield, Bool.false_eq_true, if_false]
  case pos =>
    let arg : Words := .of (insn.arg.word 0) (insn.arg.word 1) 0 0
    have hread : readField x insn.field arg = readField x insn.field insn.arg := readField_congr fun _ => rfl
    have hbelow := readField_array (x := x) ha insn.arg
    have harg : TestExpr.insn ⟨insn.test, .field insn.field (insn.arg.word 1), ⟨false, .ofNarrow (insn.arg.word 0)⟩⟩ =
        { insn with success := emitLabel 0 0, failure := emitLabel 0 0, neg := false, arg := arg } := by
      simp only [TestExpr.insn, emitTest, kindToField, emitArg, ha, if_true]
      rfl
    simp only [harg, answer, hread, hn ha]
    cases hr : readField x insn.field insn.arg
    case error | absent => rfl
    case value neg big val =>
      rw [hr] at hbelow
      rw [hbelow.2.1]
      rfl

variable {exprs : Exprs}

-- The evaluator follows the nodes.
theorem yields_of_execute (hf : Formattable object) (hu : Unsigned object)
    (hb : bare exprs = decompiled object 0) {ttl : Nat} (hi : i < object.length)
    (h : executeFilterFrom object x ttl i = some r) :
    Yields (fun t => answer x t.insn) (chart exprs) (.node i) r := by
  induction ttl generalizing i
  case zero => cases h
  case succ ttl ih =>
    have hget : object[i]? = some object[i] := List.getElem?_eq_getElem hi
    have hm : object[i] ∈ object := List.getElem_mem hi
    obtain ⟨t, hd⟩ := decompileTest_some (hf.known _ hm).1 (hf.known _ hm).2
    have hnode : chart exprs i = some ⟨.ask t, fun b => target (object[i].next b)⟩ := by
      rw [← chart_bare, chart, hb, node_decompiled (Nat.zero_le i) hget, hd]
      rfl
    simp only [executeFilterFrom, List.getD_eq_getElem?_getD, hget, Option.getD_some, Option.bind_eq_bind,
      Option.bind_eq_some_iff] at h
    obtain ⟨b, ha, h⟩ := h
    refine .node hnode ((answer_decompileTest hd (hu _ hm)).trans ha) ?_
    dsimp only
    rw [target]
    split_ifs at h ⊢ with hacc hrej
    · cases h; exact .accept
    · cases h; exact .reject
    · exact ih ((hf.forward (b := b) hget).resolve_left hacc |>.resolve_left hrej).2 h

-- The test of the filter that a question of the expression comes from.
def Comes (object : List Insn) (t : TestExpr) : Prop :=
  ∃ insn ∈ object, ∃ s f, decompileTest insn = some ⟨.ask t, s, f, 0⟩

theorem comes_of_bare (hf : Formattable object) (hb : bare exprs = decompiled object 0)
    (hn : exprs.node i = some n) {t : TestExpr} (ht : t ∈ n.expr.questions) : Comes object t := by
  have hi : i < object.length := length_of_bare (Nat.zero_le _) hb ▸ lt_of_node hn
  have hm : object[i] ∈ object := List.getElem_mem hi
  have hnode : (bare exprs).node i = some n.uncounted := by rw [node_bare, hn]; rfl
  rw [hb, node_decompiled (Nat.zero_le i) (List.getElem?_eq_getElem hi)] at hnode
  obtain ⟨t', hd⟩ := decompileTest_some (hf.known _ hm).1 (hf.known _ hm).2
  have he := hnode.symm.trans hd
  rw [Option.some.injEq, Node.uncounted, Node.mk.injEq] at he
  rw [he.1, Formula.questions, List.mem_singleton] at ht
  exact ⟨object[i], hm, _, _, ht ▸ hd⟩

-- No null pointer is dereferenced, and the expression gives the verdicts of the filter. It takes `k`
-- expressions; the pool can only be exhausted where the rest of the filter is unfolded.
theorem decompileFilter_spec (hf : Formattable object) : ∃ f k,
    (∀ {room}, 4 * object.length * exprSize ≤ room →
      decompileFilter room object = some ((alloc k room).map fun _ => f)) ∧
    (∀ {t}, t ∈ f.questions → Comes object t) ∧ (Unsigned object → ∀ {x r}, executeFilter object x = some r →
      f.eval (fun t => answer x t.insn) = some r) := by
  obtain ⟨exprs, exprs₁, k, he, hk, he₁, hb, refs, hinv⟩ := inv_decompiled hf
  obtain ⟨exprs₂, k₂, he₂, hc, hk₂⟩ := coalesceAll_coalesced (i := object.length) hinv
  obtain ⟨refs₂, hinv₂⟩ := hc.inv
  have hlen₁ : exprs₁.length = object.length := length_of_bare (Nat.zero_le _) hb
  have hlen : exprs₂.length = object.length := hc.length.trans hlen₁
  have hlive : (exprs₂.node 0).isSome := by
    refine hinv₂.live ?_ rfl
    have := hinv₂.labels 0
    simp at this
    omega
  obtain ⟨f, k₃, hm, hu⟩ := coalesceExpr_unfolds hinv₂ (fun _ => hlive)
    (show exprs₂.length ≤ object.length + 0 by omega)
  refine ⟨f, k + k₂ + k₃, fun {room} hr => ?_, fun ht => ?_,
    fun hu' {x r} hx => hu.eval (hc.keeps.yields ?_ ?_)⟩
  · have hle : (labels exprs₁).length ≤ 2 * exprs₁.length := length_labels_le
    have hr : (k + k₂) * exprSize ≤ room := (Nat.mul_le_mul_right _ (by omega)).trans hr
    rw [Nat.add_mul] at hr
    have hr₁ : k * exprSize ≤ room := Nat.le_of_add_right_le hr
    have hr₂ : k₂ * exprSize ≤ room - k * exprSize := Nat.le_sub_of_add_le' hr
    rw [← alloc_alloc, ← alloc_alloc, alloc_of_le hr₁, Option.bind_some, alloc_of_le hr₂, Option.bind_some]
    simp only [decompileFilter, he hr₁, he₁, he₂ hr₂, Option.bind_eq_bind, Option.bind_some]
    rw [hm, Option.map_map]
    rfl
  · obtain ⟨i, n, hn, ht⟩ := hu.asks ht
    obtain ⟨j, n', hn', ht⟩ := hc.asks hn ht
    exact comes_of_bare hf hb hn' ht
  · rw [target_of_not_verdict rfl, Live, chart, Option.isSome_map]
    exact hlive
  · rw [target_of_not_verdict rfl]
    exact yields_of_execute hf hu' hb hf.nonempty hx

end Meaning

end Decompile

end Wd.Text
