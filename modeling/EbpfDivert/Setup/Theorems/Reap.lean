import EbpfDivert.Setup.Processes
import EbpfDivert.Setup.Theorems.Open

open Relation

namespace Setup

variable {k : Kernel} {s s' : Sys} {o o' : Held} {w w' : World} {procs : Procs} {l l' : List Held}
variable {e : RegEntry} {f : TcFilter} {id : BitVec 64}

-- Two handles share neither filters nor an entry.
structure Held.Apart (o o' : Held) : Prop where
  filters : ∀ f ∈ o.h.filters, f ∉ o'.h.filters
  regId   : o.h.regId = o'.h.regId → o.h.regId = 0

theorem Held.Apart.symm (h : o.Apart o') : o'.Apart o where
  filters f hf hf' := h.filters f hf' hf
  regId hr         := hr.trans <| h.regId hr.symm

instance : Std.Symm Held.Apart := ⟨fun _ _ => Held.Apart.symm⟩

structure Distinct (l : List Held) : Prop where
  proper : ∀ o ∈ l, ∀ a ∈ o.h.att, a.Proper
  nodup  : ∀ o ∈ l, o.h.filters.Nodup
  apart  : l.Pairwise Held.Apart

namespace Distinct

theorem sublist (h : Distinct l) (hl : l'.Sublist l) : Distinct l' where
  proper o ho := h.proper o (hl.mem ho)
  nodup o ho  := h.nodup o (hl.mem ho)
  apart       := h.apart.sublist hl

theorem eq_of_filter (h : Distinct l) (ho : o ∈ l) (ho' : o' ∈ l) (hf : f ∈ o.h.filters)
    (hf' : f ∈ o'.h.filters) : o = o' := by
  by_contra hn
  exact (h.apart.forall ho ho' hn).filters f hf hf'

theorem apart_of_mem_erase (h : Distinct l) (ho : o ∈ l) (ho' : o' ∈ l.erase o) : o.Apart o' := by
  have hp := h.apart.perm (List.perm_cons_erase ho) Held.Apart.symm
  exact (List.pairwise_cons.mp hp).left o' ho'

end Distinct

theorem registry_close {p : Process} {h : Handle} : (ebpfdivertClose p true h w).registry =
    if h.regId ≠ 0 then BoundedMap.erase w.registry h.regId else w.registry := by
  simp only [ebpfdivertClose, and_true]
  split_ifs <;> rfl

-- All handles have their filters, and the entries of the registry are those of handles.
structure Sys.Ok (s : Sys) : Prop where
  distinct : Distinct s.handles
  present  : ∀ o ∈ s.handles, ∀ f ∈ o.h.filters, f ∈ s.world.filters
  recorded : ∀ o ∈ s.handles, o.h.regId ≠ 0 →
    ∃ e, s.world.registry.lookup o.h.regId = some e ∧ e.named = o.h.filters.take regMaxAttach
  owner    : ∀ id e, s.world.registry.lookup id = some e → id ≠ 0 ∧ ∃ o ∈ s.handles, o.h.regId = id

namespace Sys.Ok

theorem start : Sys.start.Ok where
  distinct := ⟨nofun, nofun, .nil⟩
  present  := nofun
  recorded := nofun
  owner    := fun _ _ he => absurd he (by simp [Sys.start])

-- Only the filters and the registry matter.
theorem congr (h : s.Ok) (hf : w.filters = s.world.filters) (hr : w.registry = s.world.registry) :
    Sys.Ok ⟨w, s.handles⟩ where
  distinct := h.distinct
  present  := hf ▸ h.present
  recorded := hr ▸ h.recorded
  owner    := hr ▸ h.owner

-- An entry names the filters of its handle, as far as it has room for them.
theorem exists_owner (h : s.Ok) (he : s.world.registry.lookup id = some e) :
    ∃ o ∈ s.handles, o.h.regId = id ∧ id ≠ 0 ∧ e.named = o.h.filters.take regMaxAttach := by
  obtain ⟨hz, o, ho, rfl⟩ := h.owner id e he
  obtain ⟨e', he', hn⟩ := h.recorded o ho hz
  cases he.symm.trans he'
  exact ⟨o, ho, rfl, hz, hn⟩

theorem eq_of_named (h : s.Ok) (he : s.world.registry.lookup id = some e) (hf : f ∈ e.named)
    (ho : o ∈ s.handles) (hf' : f ∈ o.h.filters) :
    o.h.regId = id ∧ f ∈ o.h.filters.take regMaxAttach := by
  obtain ⟨o', ho', hr, _, hn⟩ := h.exists_owner he
  rw [hn] at hf
  cases h.distinct.eq_of_filter ho ho' hf' (List.mem_of_mem_take hf)
  exact ⟨hr, hf⟩

theorem keep (h : s.Ok) (hf : ∀ o ∈ s.keep w.registry, ∀ f ∈ o.h.filters, f ∈ w.filters)
    (hs : ∀ id e, w.registry.lookup id = some e → s.world.registry.lookup id = some e)
    (hl : ∀ o ∈ s.handles, o.live → w.registry.lookup o.h.regId = s.world.registry.lookup o.h.regId) :
    Sys.Ok ⟨w, s.keep w.registry⟩ where
  distinct := h.distinct.sublist List.filter_sublist
  present  := hf
  recorded := by
    intro o ho hz
    have ⟨hm, hk⟩ := List.mem_filter.mp ho
    obtain ⟨e, he, hn⟩ := h.recorded o hm hz
    refine ⟨e, ?_, hn⟩
    simp only [Bool.or_eq_true, decide_eq_true_eq, hz, or_false, Option.isSome_iff_exists] at hk
    rcases hk with hk | ⟨e', he'⟩
    case inl => rwa [hl o hm hk]
    case inr => rw [he', ← hs _ _ he', he]
  owner := by
    intro id e he
    obtain ⟨hz, o, ho, rfl⟩ := h.owner id e (hs id e he)
    exact ⟨hz, o, List.mem_filter.mpr ⟨ho, by simp [he]⟩, rfl⟩

-- Nothing is dropped if nothing has been reaped.
theorem unreaped (h : s.Ok) (hf : w.filters = s.world.filters) (hr : w.registry = s.world.registry) :
    Sys.Ok ⟨w, s.keep w.registry⟩ := by
  apply h.keep
  case hf => exact fun o ho => hf ▸ h.present o (List.mem_of_mem_filter ho)
  case hs => exact fun _ _ => hr ▸ id
  case hl => exact fun _ _ _ => hr ▸ rfl

theorem reap (h : s.Ok) (hr : s.Recognised procs) :
    Sys.Ok ⟨registryReap procs true s.world, s.keep (registryReap procs true s.world).registry⟩ := by
  have hs {id e} (he : (registryReap procs true s.world).registry.lookup id = some e) :
      s.world.registry.lookup id = some e ∧ e.Alive procs := by
    rw [lookup_registryReap, Option.filter_eq_some_iff] at he
    simpa using he
  apply h.keep
  case hs => exact fun id e he => (hs he).left
  case hl =>
    intro o ho hl
    rw [lookup_registryReap]
    cases he : s.world.registry.lookup o.h.regId
    case none   => rfl
    case some e => simp [Option.filter, hr o ho hl e he]
  case hf =>
    intro o ho f hf
    obtain ⟨hm, hk⟩ := List.mem_filter.mp ho
    refine mem_filters_registryReap.mpr ⟨h.present o hm f hf, ?_⟩
    rintro ⟨id, e, ⟨he, ha⟩, hn⟩
    obtain ⟨rfl, -⟩ := h.eq_of_named he hn hm hf
    have hz := (h.owner _ _ he).left
    simp only [Bool.or_eq_true, decide_eq_true_eq, hz, or_false, Option.isSome_iff_exists] at hk
    rcases hk with hk | ⟨e', he'⟩
    case inl => exact ha (hr o hm hk e he)
    case inr =>
      cases he.symm.trans (hs he').left
      exact ha (hs he').right

theorem settle (h : s.Ok) {env : RegEnv} (hr : s.Recognised env.procs) :
    Sys.Ok ⟨env.settle s.world, s.keep (env.settle s.world).registry⟩ := by
  rcases (settle_cases : env.settle s.world = s.world ∨ _) with hs | hs <;> rw [hs]
  case inl => exact h.unreaped rfl rfl
  case inr => exact h.reap hr

-- A handle whose filters are new.
theorem cons (h : Sys.Ok ⟨w, l⟩) (hp : ∀ a ∈ o.h.att, a.Proper) (hn : o.h.filters.Nodup)
    (hf : ∀ f ∈ o.h.filters, f ∉ w.filters) (hw : w'.filters = w.filters ∪ o.h.filters.toFinset)
    (hr : w'.registry = w.registry) (hz : o.h.regId = 0) : Sys.Ok ⟨w', o :: l⟩ where
  distinct :=
    { proper := List.forall_mem_cons.mpr ⟨hp, h.distinct.proper⟩
      nodup  := List.forall_mem_cons.mpr ⟨hn, h.distinct.nodup⟩
      apart  := List.pairwise_cons.mpr
        ⟨fun o' ho' => ⟨fun f hf' hm => hf f hf' (h.present o' ho' f hm), fun _ => hz⟩, h.distinct.apart⟩ }
  present := by
    rw [hw]
    refine List.forall_mem_cons.mpr ⟨fun f hf => by simp [hf], fun o ho f hf => ?_⟩
    exact Finset.mem_union_left _ (h.present o ho f hf)
  recorded := hr ▸ List.forall_mem_cons.mpr ⟨absurd hz, h.recorded⟩
  owner    := by
    intro id e he
    obtain ⟨hz, o', ho', hi⟩ := h.owner id e (hr ▸ he)
    exact ⟨hz, o', .tail _ ho', hi⟩

-- The handle that has been opened last gets an entry.
theorem register (h : Sys.Ok ⟨w, o :: l⟩) (hz : id ≠ 0) {t : Table}
    (ht : w.registry.insertNew id e = some t) (hn : e.named = o.h.filters.take regMaxAttach)
    (ho : o.h.regId = 0) :
    Sys.Ok ⟨{ w with registry := t }, { o with h.regId := id } :: l⟩ := by
  have hi := BoundedMap.lookup_eq_none_of_insertNew ht
  have hl (id') : t.lookup id' = if id' = id then some e else w.registry.lookup id' :=
    BoundedMap.lookup_insertNew ht
  have hne {o'} (ho' : o' ∈ l) (hz : o'.h.regId ≠ 0) : o'.h.regId ≠ id := by
    rintro rfl
    obtain ⟨_, he, _⟩ := h.recorded o' (.tail _ ho') hz
    cases hi.symm.trans he
  have ⟨ha, has⟩ := List.pairwise_cons.mp h.distinct.apart
  constructor
  case distinct =>
    constructor
    case proper => exact List.forall_mem_cons.mpr <| List.forall_mem_cons.mp h.distinct.proper
    case nodup  => exact List.forall_mem_cons.mpr <| List.forall_mem_cons.mp h.distinct.nodup
    case apart  =>
      refine List.pairwise_cons.mpr ⟨fun o' ho' => ⟨(ha o' ho').filters, fun hr => ?_⟩, has⟩
      exact absurd hr.symm (hne ho' (hr ▸ hz))
  case present => exact List.forall_mem_cons.mpr <| List.forall_mem_cons.mp h.present
  case recorded =>
    refine List.forall_mem_cons.mpr ⟨fun _ => ⟨e, by simp [hl], hn⟩, fun o' ho' hz => ?_⟩
    obtain ⟨e', he, hn⟩ := h.recorded o' (.tail _ ho') hz
    exact ⟨e', by simpa [hl, hne ho' hz] using he, hn⟩
  case owner =>
    intro id' e' he
    by_cases hi : id' = id
    case pos => exact ⟨hi ▸ hz, _, .head _, hi.symm⟩
    case neg =>
      obtain ⟨hz', o', hm, hr⟩ := h.owner id' e' (by simpa [hl, hi] using he)
      rcases List.mem_cons.mp hm with rfl | hm
      case inl => exact absurd (hr.symm.trans ho) hz'
      case inr => exact ⟨hz', o', .tail _ hm, hr⟩

theorem add (h : Sys.Ok ⟨w, l⟩) {self : Process} {env : RegEnv} {c : Core} {p : Opening}
    (ho : Owned w c p) :
    Sys.Ok ⟨(registryAdd self env p).world, ⟨self, (registryAdd self env p).h, true⟩ :: l⟩ := by
  have hc : Sys.Ok ⟨p.world, ⟨self, p.h, true⟩ :: l⟩ :=
    h.cons ho.proper ho.nodup ho.new ho.filters ho.registry ho.regId
  rcases (registryAdd_cases : registryAdd self env p = p ∨ _) with hr | ⟨t, hz, ht, hr⟩ <;> rw [hr]
  case inl => exact hc
  case inr => exact hc.register hz ht (named_regEntry ho.proper) ho.regId

theorem close (h : s.Ok) (ho : o ∈ s.handles) :
    Sys.Ok ⟨ebpfdivertClose o.process true o.h s.world, s.handles.erase o⟩ := by
  have hf : (ebpfdivertClose o.process true o.h s.world).filters =
      s.world.filters \ o.h.filters.toFinset := by
    rw [← detachAll_eq (h.distinct.proper o ho), ebpfdivertClose]
    split_ifs <;> rfl
  have hl (id) : (ebpfdivertClose o.process true o.h s.world).registry.lookup id =
      if o.h.regId ≠ 0 ∧ id = o.h.regId then none else s.world.registry.lookup id := by
    rw [registry_close]
    split_ifs with hz hi hi
    · exact BoundedMap.lookup_erase.trans (if_pos hi.right)
    · exact BoundedMap.lookup_erase.trans (if_neg fun h => hi ⟨hz, h⟩)
    · exact absurd hi.left hz
    · rfl
  constructor
  case distinct => exact h.distinct.sublist List.erase_sublist
  case present =>
    intro o' ho' f hf'
    have ha := (h.distinct.apart_of_mem_erase ho ho').symm
    rw [hf, Finset.mem_sdiff, List.mem_toFinset]
    exact ⟨h.present o' (List.mem_of_mem_erase ho') f hf', ha.filters f hf'⟩
  case recorded =>
    intro o' ho' hz
    have ha := (h.distinct.apart_of_mem_erase ho ho').symm
    obtain ⟨e, he, hn⟩ := h.recorded o' (List.mem_of_mem_erase ho') hz
    exact ⟨e, by rwa [hl, if_neg fun hi => hz (ha.regId hi.right)], hn⟩
  case owner =>
    intro id e he
    rw [hl] at he
    split at he
    case isTrue => cases he
    case isFalse hn =>
      obtain ⟨hz, o', ho', rfl⟩ := h.owner id e he
      refine ⟨hz, o', (List.mem_erase_of_ne ?_).mpr ho', rfl⟩
      rintro rfl
      exact hn ⟨hz, rfl⟩

theorem exit (h : s.Ok) {p : Process} : (s.exit p).Ok := by
  have hh (o : Held) : (if o.process = p then { o with live := false } else o).h = o.h := by
    split <;> rfl
  constructor
  case distinct =>
    constructor
    case proper => simpa [Sys.exit, hh] using h.distinct.proper
    case nodup  => simpa [Sys.exit, hh] using h.distinct.nodup
    case apart  =>
      refine List.pairwise_map.mpr <| h.distinct.apart.imp fun ha => ⟨?_, ?_⟩
      · simpa [hh] using ha.filters
      · simpa [hh] using ha.regId
  case present  => simpa [Sys.exit, hh] using h.present
  case recorded => simpa [Sys.exit, hh] using h.recorded
  case owner    => simpa [Sys.exit, hh] using h.owner

theorem step (h : s.Ok) (hs : Step k s s') : s'.Ok := by
  cases hs
  case opened ho hr =>
    obtain ⟨_, _, p, _, ⟨p', hp, rfl⟩, rfl, rfl⟩ := ebpfdivertOpen_ok ho
    exact ((h.settle hr).add hp).congr rfl rfl
  case failed ho hr =>
    rcases ebpfdivertOpen_error ho with rfl | ⟨_, _, rfl⟩
    case inl => exact h.unreaped rfl rfl
    case inr => exact (h.settle hr).congr rfl rfl
  case unregister ok hr =>
    cases ok
    case false => exact h.unreaped rfl rfl
    case true  => exact h.reap hr
  case closed hm _ => exact h.close hm
  case ended => exact h.exit
  case other hf => exact ⟨h.distinct, hf, h.recorded, h.owner⟩

theorem of_reachable (h : Reachable k s) : s.Ok := by
  induction h
  case refl        => exact .start
  case tail hs ih  => exact ih.step hs

end Sys.Ok

section Reap

variable {reapOk : Bool}

theorem mem_reapCalls :
    f ∈ reapCalls procs reapOk w.registry ↔
      reapOk ∧ ∃ id e, (w.registry.lookup id = some e ∧ ¬e.Alive procs) ∧ f ∈ e.named := by
  rw [reapCalls]
  cases reapOk
  case false => simp
  case true  => simp [mem_reaped_calls]

-- A filter of a handle is only detached for the entry of the handle.
theorem Sys.Ok.mem_reapCalls (h : s.Ok) (ho : o ∈ s.handles) (hf : f ∈ o.h.filters) :
    f ∈ reapCalls procs reapOk s.world.registry ↔
      reapOk ∧ (∃ e, s.world.registry.lookup o.h.regId = some e ∧ ¬e.Alive procs) ∧
        f ∈ o.h.filters.take regMaxAttach := by
  rw [Setup.mem_reapCalls, and_congr_right_iff]
  intro _
  constructor
  case mp =>
    rintro ⟨id, e, ⟨he, ha⟩, hn⟩
    obtain ⟨rfl, ht⟩ := h.eq_of_named he hn ho hf
    exact ⟨⟨e, he, ha⟩, ht⟩
  case mpr =>
    rintro ⟨⟨e, he, ha⟩, ht⟩
    obtain ⟨e', he', hn⟩ := h.recorded o ho (h.owner _ e he).left
    cases he.symm.trans he'
    exact ⟨_, e, ⟨he, ha⟩, hn ▸ ht⟩

theorem forall_mem_take_iff {α : Type*} {l : List α} {n : Nat} (h : l.Nodup) :
    (∀ a ∈ l, a ∈ l.take n) ↔ l.length ≤ n := by
  constructor
  case mp =>
    intro ht
    have hl := (h.subperm ht).length_le
    rw [List.length_take] at hl
    omega
  case mpr => exact fun hl a ha => (List.take_of_length_le hl).symm ▸ ha

theorem Sys.Ok.lookup_reap_eq_none_iff (h : s.Ok) (ho : o ∈ s.handles) (hr : o.h.regId ≠ 0) :
    (registryReap procs reapOk s.world).registry.lookup o.h.regId = none ↔
      reapOk ∧ ∀ e, s.world.registry.lookup o.h.regId = some e → ¬e.Alive procs := by
  obtain ⟨e, he, _⟩ := h.recorded o ho hr
  cases reapOk
  case false => simp [registryReap, he]
  case true  => simp [lookup_registryReap, he]

theorem exists_mem_take {α : Type*} {l : List α} {n : Nat} (hl : l ≠ []) (hn : 0 < n) :
    ∃ a ∈ l, a ∈ l.take n := by
  obtain ⟨a, l, rfl⟩ := List.exists_cons_of_ne_nil hl
  obtain ⟨n, rfl⟩ := Nat.exists_eq_succ_of_ne_zero hn.ne'
  exact ⟨a, .head _, .head _⟩

-- What becomes of a handle when the registry is reaped, in every state that the processes can reach.
theorem reap_detaches_iff (hs : Reachable k s) (ho : o ∈ s.handles) (hr : o.h.regId ≠ 0) :
    ((∀ f ∈ o.h.filters, f ∈ reapCalls procs reapOk s.world.registry) ∧
      (∀ o' ∈ s.handles, o'.live → ∀ f ∈ o'.h.filters, f ∉ reapCalls procs reapOk s.world.registry) ∧
      (registryReap procs reapOk s.world).registry.lookup o.h.regId = none) ↔
    reapOk ∧ (∀ e, s.world.registry.lookup o.h.regId = some e → ¬e.Alive procs) ∧
      o.h.att.length ≤ regMaxAttach ∧
      ∀ o' ∈ s.handles, o'.live → o'.h.att ≠ [] →
        ∀ e, s.world.registry.lookup o'.h.regId = some e → e.Alive procs := by
  have h := Sys.Ok.of_reachable hs
  have hl : o.h.att.length = o.h.filters.length := (List.length_map _).symm
  rw [h.lookup_reap_eq_none_iff ho hr, hl, ← forall_mem_take_iff (h.distinct.nodup o ho)]
  constructor
  case mp =>
    rintro ⟨hc, hn, hok, hd⟩
    refine ⟨hok, hd, fun f hf => ((h.mem_reapCalls ho hf).mp (hc f hf)).right.right, ?_⟩
    intro o' ho' hl hne e he
    by_contra ha
    have hne : o'.h.filters ≠ [] := mt List.map_eq_nil_iff.mp hne
    obtain ⟨f, hf, ht⟩ := exists_mem_take (n := regMaxAttach) hne (by decide)
    exact hn o' ho' hl f hf <| (h.mem_reapCalls ho' hf).mpr ⟨hok, ⟨e, he, ha⟩, ht⟩
  case mpr =>
    rintro ⟨hok, hd, ht, hn⟩
    obtain ⟨e, he, _⟩ := h.recorded o ho hr
    refine ⟨fun f hf => (h.mem_reapCalls ho hf).mpr ⟨hok, ⟨e, he, hd e he⟩, ht f hf⟩, ?_, hok, hd⟩
    intro o' ho' hl f hf hc
    obtain ⟨_, ⟨e', he', ha⟩, _⟩ := (h.mem_reapCalls ho' hf).mp hc
    have hne : o'.h.att ≠ [] := fun hz => by simp [Handle.filters, hz] at hf
    exact ha (hn o' ho' hl hne e' he')

end Reap

-- A process that opens a handle on the first `n` interfaces, and what is left when it has ended.
section Crash

def interfaces (n : Nat) : List Iface :=
  (List.range n).map fun i => ⟨i + 1, "eth"⟩

def openAll (n : Nat) : Except Errno Handle × World :=
  ebpfdivertOpen .counting ⟨100, 5⟩ (smooth (interfaces n) running) allInterfaces Sys.start.world

def crashed (h : Handle) (w : World) : Sys :=
  Sys.exit ⟨w, [⟨⟨100, 5⟩, h, true⟩]⟩ ⟨100, 5⟩

theorem reachable_crashed {n : Nat} {h : Handle} (ho : openAll n = (.ok h, w)) :
    Reachable .counting (crashed h w) :=
  .tail (.single (.opened ho nofun)) .ended

theorem exists_openAll {n natt : Nat}
    (h : ((openAll n).1.toOption.map fun h => (h.att.length, h.regId)) = some (natt, id)) :
    ∃ h w, openAll n = (.ok h, w) ∧ h.att.length = natt ∧ h.regId = id := by
  generalize openAll n = r at h
  obtain ⟨r, w⟩ := r
  cases r
  case error => simp [Except.toOption] at h
  case ok h' =>
    simp only [Except.toOption, Option.map_some, Option.some.injEq, Prod.mk.injEq] at h
    exact ⟨h', w, rfl, h⟩

theorem not_alive_gone : ¬e.Alive gone :=
  nofun

theorem reap_detaches_iff_lo :
    ∃ s o, Reachable .counting s ∧ o ∈ s.handles ∧ o.live = false ∧ o.h.att.length = 2 ∧
      (∀ f ∈ o.h.filters, f ∈ reapCalls gone true s.world.registry) ∧
      (registryReap gone true s.world).registry.lookup o.h.regId = none := by
  obtain ⟨h, w, ho, hn, hi⟩ : ∃ h w, openAll 1 = (.ok h, w) ∧ h.att.length = 2 ∧ h.regId = 1 :=
    exists_openAll (by decide)
  have hr : h.regId ≠ 0 := hi ▸ by decide
  have hc := (reap_detaches_iff (reachable_crashed ho) (.head _) hr).mpr
    ⟨rfl, fun _ _ => not_alive_gone, hn.trans_le (by decide), by simp [crashed, Sys.exit]⟩
  exact ⟨_, _, reachable_crashed ho, .head _, rfl, hn, hc.1, hc.2.2⟩

-- There is no room in the entry for the filters on the last of 65 interfaces.
theorem reap_leaves_filters :
    ∃ s o, Reachable .counting s ∧ o ∈ s.handles ∧ o.live = false ∧ o.h.regId ≠ 0 ∧
      o.h.att.length = 130 ∧ ∃ f ∈ o.h.filters, f ∉ reapCalls gone true s.world.registry := by
  obtain ⟨h, w, ho, hn, hi⟩ : ∃ h w, openAll 65 = (.ok h, w) ∧ h.att.length = 130 ∧ h.regId = 1 :=
    exists_openAll (by decide +kernel)
  have hs := reachable_crashed ho
  have hk := Sys.Ok.of_reachable hs
  refine ⟨_, _, hs, .head _, rfl, hi ▸ by decide, hn, ?_⟩
  by_contra! hc
  have ht := (forall_mem_take_iff (hk.distinct.nodup _ (.head _))).mp fun f hf =>
    ((hk.mem_reapCalls (.head _) hf).mp (hc f hf)).right.right
  have hl : h.filters.length = 130 := (List.length_map _).trans hn
  exact absurd (hl ▸ ht) (by decide)

end Crash

end Setup
