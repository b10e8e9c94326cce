import EbpfDivert.Handle.Theorems.Snapshots
import EbpfDivert.Registry.Theorems.Share
import EbpfDivert.Setup.Theorems.Reap

-- The system of all handles refines the model of the registry in which their priorities are chosen.
namespace Setup

variable {k : Kernel} {s : Sys} {o : Held} {r : Registry.Sys} {w w' : World} {dead : List Process}
variable {self p q : Process} {env : OpenEnv} {args : OpenArgs} {h : Handle} {t : Table} {c : Core}

-- The other model has numbers for processes.
def Process.number (p : Process) : Nat :=
  Nat.pair p.pid p.start

theorem Process.number_inj : p.number = q.number ↔ p = q := by
  rw [number, number, Nat.pair_eq_pair]
  cases p
  cases q
  simp

def Table.view (t : Table) : List Registry.RegEntry :=
  t.toList.map fun x => ⟨x.1, x.2.process.number, x.2.tcPrio⟩

def Held.view (o : Held) : Registry.Opened :=
  ⟨o.h.regId, o.process.number, o.h.layer, o.h.priority, o.h.tcPrio, 0⟩

-- A handle does not remember what it has found.
def forget (g : Registry.Opened) : Registry.Opened :=
  { g with found := 0 }

-- The orders of entries and handles differ, and the handles of processes that have ended are only here.
structure Refines (s : Sys) (dead : List Process) (r : Registry.Sys) : Prop where
  entries  : r.entries.Perm s.world.registry.view
  localMax : ∀ p, r.localMax p.number = s.world.localMaxTcPrio p
  handles  : (r.handles.map forget).Perm ((s.handles.filter (·.live)).map (·.view))
  dead     : ∀ p, p.number ∈ r.dead ↔ p ∈ dead

theorem map_id_view : t.view.map (·.id) = t.toList.map Prod.fst := by
  rw [Table.view, List.map_map]
  rfl

theorem registryMaxTcPrio_view {entries : List Registry.RegEntry} (h : entries.Perm t.view) :
    registryMaxTcPrio t = Registry.registryMaxTcPrio entries := by
  have hp : (entries.map (·.tcPrio)).Perm (t.toList.map (·.2.tcPrio)) := by
    have hm := h.map Registry.RegEntry.tcPrio
    rwa [Table.view, List.map_map] at hm
  rw [registryMaxTcPrio, Registry.registryMaxTcPrio, Registry.registryMaxTcPrio, List.map_map]
  exact hp.symm.foldr_eq 0

theorem registryReap_view {procs : Procs} (h : r.entries.Perm w.registry.view)
    (hd : ∀ p, p.number ∈ r.dead ↔ p ∈ dead)
    (ha : ∀ id e, w.registry.lookup id = some e → (e.Alive procs ↔ e.process ∉ dead)) :
    (Registry.registryReap r).Perm (registryReap procs true w).registry.view := by
  have hr : (w.registry.toList.filter fun x => x.2.Alive procs).Perm
      (registryReap procs true w).registry.toList := by
    apply BoundedMap.perm_toList
    case hn => exact BoundedMap.nodup_keys.sublist (List.filter_sublist.map _)
    case h =>
      intro id e
      rw [List.mem_filter, BoundedMap.mem_toList, lookup_registryReap, Option.filter_eq_some_iff]
  have hf : w.registry.view.filter (·.pid ∉ r.dead) =
      (w.registry.toList.filter fun x => x.2.Alive procs).map
        fun x => ⟨x.1, x.2.process.number, x.2.tcPrio⟩ := by
    rw [Table.view, List.filter_map]
    congr 1
    refine List.filter_congr fun x hx => ?_
    have hx := ha x.1 x.2 (BoundedMap.mem_toList.mp hx)
    simp only [Function.comp_apply, hd, hx]
  exact (h.filter _).trans (hf ▸ hr.map _)

-- An entry that cannot be written has no id.
def RegEnv.entryId (env : RegEnv) : BitVec 64 :=
  if env.addOk && env.updateOk then env.id else 0

def RegEnv.openEnv (env : RegEnv) (openOk : Bool) : Registry.OpenEnv :=
  ⟨env.regOk, env.entryId, openOk⟩

section Add

variable {env : RegEnv} {p : Opening} {entries : List Registry.RegEntry}

theorem registryAdd_refused
    (h : ¬(env.entryId ≠ 0 ∧ p.world.registry.toList.length < Registry.registryMax ∧
      env.entryId ∉ p.world.registry.toList.map Prod.fst)) : registryAdd self env p = p := by
  rw [registryAdd]
  split_ifs with hn
  case pos => rfl
  case neg =>
    simp only [Bool.or_eq_true, Bool.not_eq_true', decide_eq_true_eq, not_or, Bool.not_eq_false] at hn
    obtain ⟨⟨⟨_, ha⟩, hz⟩, hu⟩ := hn
    have hi : env.entryId = env.id := if_pos (by rw [ha, hu]; rfl)
    rw [hi] at h
    rw [BoundedMap.insertNew_eq_none fun hc => h ⟨hz, hc⟩]

theorem registryAdd_entered (hr : env.regOk) (hz : env.entryId ≠ 0)
    (hl : p.world.registry.toList.length < Registry.registryMax)
    (hi : env.entryId ∉ p.world.registry.toList.map Prod.fst) :
    (registryAdd self env p).world.registry.toList =
      (env.entryId, regEntry self env p.h) :: p.world.registry.toList ∧
    (registryAdd self env p).h.regId = env.entryId := by
  rw [RegEnv.entryId] at *
  split_ifs at * with hu
  case neg => exact absurd rfl hz
  case pos =>
    rw [Bool.and_eq_true] at hu
    obtain ⟨t, ht, hp⟩ := BoundedMap.insertNew_eq_some (b := regEntry self env p.h) hl hi
    have ha : registryAdd self env p = { p with world.registry := t, h.regId := env.id } := by
      rw [registryAdd, if_neg (by simpa [hr, hu] using hz), ht]
    rw [ha]
    exact ⟨hp, rfl⟩

theorem registryAdd_view (h : entries.Perm p.world.registry.view) (hr : env.regOk)
    (hs : procStartTime env.procs self.pid = self.start) (hz : p.h.regId = 0) :
    (Registry.registryAdd entries ⟨env.entryId, self.number, p.h.tcPrio⟩).1.Perm
      (registryAdd self env p).world.registry.view ∧
    (Registry.registryAdd entries ⟨env.entryId, self.number, p.h.tcPrio⟩).2 =
      (registryAdd self env p).h.regId := by
  have hl : entries.length = p.world.registry.toList.length :=
    h.length_eq.trans (List.length_map _)
  have hi : env.entryId ∈ entries.map (·.id) ↔ env.entryId ∈ p.world.registry.toList.map Prod.fst :=
    map_id_view ▸ (h.map _).mem_iff
  rw [Registry.registryAdd]
  split_ifs with hc
  case neg =>
    rw [registryAdd_refused fun hn => hc ⟨hn.1, hi.not.mpr hn.2.2, hl ▸ hn.2.1⟩]
    exact ⟨h, hz.symm⟩
  case pos =>
    obtain ⟨ht, hid⟩ : _ ∧ (registryAdd self env p).h.regId = _ :=
      registryAdd_entered hr hc.1 (hl ▸ hc.2.2) (hi.not.mp hc.2.1)
    have he : (regEntry self env p.h).process = self := by
      rw [RegEntry.process, regEntry, hs]
    rw [Table.view, ht, hid, List.map_cons, he]
    exact ⟨(List.perm_append_singleton _ _).trans (h.cons _), rfl⟩

-- Nothing else changes.
theorem core_registryAdd : (registryAdd self env p).core = p.core := by
  rcases (registryAdd_cases : registryAdd self env p = p ∨ _) with hr | ⟨t, _, _, hr⟩ <;> rw [hr]
  rfl

end Add

namespace Refines

theorem start : Refines .start [] .start where
  entries    := .nil
  localMax _ := rfl
  handles    := .nil
  dead _     := by simp [Registry.Sys.start]

-- The handles that are dropped are those of processes that have ended.
theorem filter_keep : (s.keep t).filter (·.live) = s.handles.filter (·.live) := by
  rw [Sys.keep, List.filter_filter]
  exact List.filter_congr fun o _ => by cases o.live <;> simp

theorem kept (h : Refines s dead r) : Refines ⟨s.world, s.keep t⟩ dead r where
  entries  := h.entries
  localMax := h.localMax
  handles  := filter_keep.symm ▸ h.handles
  dead     := h.dead

theorem lives {env : RegEnv} (h : Refines s dead r) (hs : env.Sound self s.world.registry dead) :
    self.number ∉ r.dead :=
  mt (h.dead self).mp hs.lives

theorem settle {env : RegEnv} (h : Refines s dead r) (hs : env.Sound self s.world.registry dead) :
    (if env.regOk then Registry.registryReap r else r.entries).Perm
      (env.settle s.world).registry.view := by
  rw [RegEnv.settle]
  split_ifs with hr
  case neg => exact h.entries
  case pos => exact (hs.reapOk hr).symm ▸ registryReap_view h.entries h.dead hs.alive

theorem tcPrio_newHandle {env : RegEnv} (h : Refines s dead r)
    (hs : env.Sound self s.world.registry dead) (openOk : Bool) :
    (r.newHandle self.number args.layer args.priority (env.openEnv openOk)).tcPrio =
      ((args.core s.world).choose self env (env.settle s.world).registry).tcPrio := by
  have hf : (if env.regOk && env.maxOk then registryMaxTcPrio (env.settle s.world).registry else 0) =
      if env.regOk then
        Registry.registryMaxTcPrio (if env.regOk then Registry.registryReap r else r.entries)
      else 0 := by
    cases hr : env.regOk
    case false => rfl
    case true =>
      rw [hs.maxOk hr, registryMaxTcPrio_view (h.settle hs), hr]
      rfl
  rw [Registry.Sys.newHandle, Core.choose, OpenArgs.core, h.localMax]
  dsimp only
  rw [hf]
  rfl

theorem localMax_openNetwork {env : RegEnv} {openOk : Bool} (h : Refines s dead r)
    (hs : env.Sound self s.world.registry dead) :
    (r.openNetwork self.number args.layer args.priority (env.openEnv openOk)).localMax p.number =
      ((args.core s.world).choose self env (env.settle s.world).registry).localMaxTcPrio p := by
  rw [Registry.openNetwork_localMax, h.tcPrio_newHandle hs openOk, Core.choose, OpenArgs.core]
  by_cases h₀ : args.priority = 0
  case neg => simpa [h₀] using h.localMax p
  case pos =>
    by_cases hp : p = self
    case pos => simp [h₀, hp, h.localMax]
    case neg => simp [h₀, hp, Process.number_inj, h.localMax]

theorem failed {m : World} (h : Refines s dead r) (hs : env.Sound self s.world.registry dead)
    (hm : m = { env.settle s.world with
      localMaxTcPrio :=
        ((args.core s.world).choose self env.toRegEnv (env.settle s.world).registry).localMaxTcPrio }) :
    Refines ⟨m, s.keep m.registry⟩ dead
      (r.openNetwork self.number args.layer args.priority (env.openEnv false)) := by
  constructor
  case entries =>
    rw [Registry.openNetwork_entries, hm]
    exact h.settle hs
  case localMax => exact fun p => hm ▸ h.localMax_openNetwork hs
  case handles  => exact filter_keep.symm ▸ h.handles
  case dead     => exact fun p => Registry.openNetwork_dead.symm ▸ h.dead p

section Opened

variable {a : Opening} {f : Wd.Filter}

theorem added (h : Refines s dead r) (hs : env.Sound self s.world.registry dead)
    (ho : Owned (env.settle s.world) c a) :
    (r.entered self.number c.tcPrio (env.openEnv true)).1.Perm
      (registryAdd self env.toRegEnv a).world.registry.view ∧
    (r.entered self.number c.tcPrio (env.openEnv true)).2 =
      (registryAdd self env.toRegEnv a).h.regId := by
  have he := h.settle hs
  rw [← ho.registry] at he
  rw [← ho.core, Registry.Sys.entered, RegEnv.openEnv]
  cases hr : env.regOk <;> rw [hr] at he
  case true  => exact registryAdd_view he hr hs.start ho.regId
  case false =>
    have ha : registryAdd self env.toRegEnv a = a := by simp [registryAdd, hr]
    rw [ha]
    exact ⟨he, ho.regId.symm⟩

-- The handle that has been opened, as the registry knows it.
theorem view_opened (ho : Owned w c a) :
    Held.view ⟨self, (registryAdd self env.toRegEnv a).h, true⟩ =
      ⟨(registryAdd self env.toRegEnv a).h.regId, self.number, c.layer, c.priority, c.tcPrio, 0⟩ := by
  rw [← ho.core, ← (core_registryAdd : (registryAdd self env.toRegEnv a).core = a.core)]
  rfl

theorem localMaxTcPrio_opened (ho : Owned w c a) :
    (heartbeatAdd self (registryAdd self env.toRegEnv a)).localMaxTcPrio = c.localMaxTcPrio := by
  rw [← ho.core, ← (core_registryAdd : (registryAdd self env.toRegEnv a).core = a.core)]
  rfl

theorem handles_cons {g : Registry.Opened} (h : Refines s dead r) (ho : o.live)
    (hg : forget g = o.view) :
    ((r.handles ++ [g]).map forget).Perm (((o :: s.keep t).filter (·.live)).map (·.view)) := by
  rw [List.filter_cons_of_pos ho, filter_keep, List.map_append, List.map_cons, List.map_cons, hg]
  exact (List.perm_append_singleton _ _).trans (h.handles.cons _)

theorem opened_network (h : Refines s dead r) (hs : env.Sound self s.world.registry dead)
    (ho : Owned (env.settle s.world) ({ args.core s.world with filter := some f }.choose self
      env.toRegEnv (env.settle s.world).registry) a) :
    Refines ⟨heartbeatAdd self (registryAdd self env.toRegEnv a),
        ⟨self, (registryAdd self env.toRegEnv a).h, true⟩ :: s.keep t⟩ dead
      (r.openNetwork self.number args.layer args.priority (env.openEnv true)) := by
  have ht : (r.newHandle self.number args.layer args.priority (env.openEnv true)).tcPrio = _ :=
    h.tcPrio_newHandle hs true
  obtain ⟨he, hi⟩ := h.added hs ho
  constructor
  case entries =>
    rw [Registry.openNetwork_entries, ht]
    exact he
  case localMax =>
    intro p
    rw [localMaxTcPrio_opened ho]
    exact h.localMax_openNetwork hs
  case handles =>
    rw [Registry.openNetwork_handles]
    apply h.handles_cons rfl
    rw [view_opened ho, ← hi, forget, Registry.regId_newHandle, ht]
    rfl
  case dead => exact fun p => Registry.openNetwork_dead.symm ▸ h.dead p

theorem opened_other (h : Refines s dead r) (hs : env.Sound self s.world.registry dead)
    (ho : Owned (env.settle s.world) { args.core s.world with filter := some f } a) :
    Refines ⟨heartbeatAdd self (registryAdd self env.toRegEnv a),
        ⟨self, (registryAdd self env.toRegEnv a).h, true⟩ :: s.keep t⟩ dead
      (r.registerHandle self.number args.layer args.priority (env.openEnv true)) := by
  obtain ⟨he, hi⟩ := h.added hs ho
  constructor
  case entries => exact he
  case localMax =>
    intro p
    rw [localMaxTcPrio_opened ho]
    exact h.localMax p
  case handles =>
    apply h.handles_cons rfl
    rw [view_opened ho, ← hi]
    rfl
  case dead => exact h.dead

end Opened

theorem erase_view {id : BitVec 64} {t' : Table} (ht : t' = BoundedMap.erase t id) :
    (t.view.filter (·.id ≠ id)).Perm t'.view := by
  rw [ht, Table.view, List.filter_map]
  exact BoundedMap.perm_toList_erase.map _

theorem exists_opened (h : Refines s dead r) (ho : o ∈ s.handles) (hl : o.live) :
    ∃ g ∈ r.handles, forget g = o.view :=
  List.mem_map.mp <| h.handles.mem_iff.mpr <| List.mem_map_of_mem <| List.mem_filter.mpr ⟨ho, hl⟩

theorem closed (h : Refines s dead r) (ho : o ∈ s.handles) (hl : o.live) :
    ∃ g ∈ r.handles, Refines ⟨ebpfdivertClose o.process true o.h s.world, s.handles.erase o⟩ dead
      (r.close g true) := by
  obtain ⟨g, hg, hv⟩ := h.exists_opened ho hl
  have hi : g.regId = o.h.regId := congrArg (·.regId) hv
  refine ⟨g, hg, ?_⟩
  constructor
  case entries =>
    have hc := registry_close (p := o.process) (h := o.h) (w := s.world)
    simp only [Registry.Sys.close, hi, true_and]
    split_ifs at hc ⊢
    case pos => exact (h.entries.filter _).trans (erase_view hc)
    case neg => exact hc ▸ h.entries
  case localMax =>
    intro p
    rw [ebpfdivertClose]
    split_ifs <;> exact h.localMax p
  case handles =>
    have hr : (r.handles.map forget).Perm (o.view :: (r.handles.erase g).map forget) :=
      hv ▸ (List.perm_cons_erase hg).map forget
    have hs : ((s.handles.filter (·.live)).map (·.view)).Perm
        (o.view :: ((s.handles.erase o).filter (·.live)).map (·.view)) := by
      have hp := (List.perm_cons_erase ho).filter (·.live)
      rw [List.filter_cons_of_pos hl] at hp
      exact hp.map _
    exact (hr.symm.trans (h.handles.trans hs)).cons_inv
  case dead => exact h.dead

theorem handles_exit : ((s.exit p).handles.filter (·.live)).map (·.view) =
    ((s.handles.filter (·.live)).map (·.view)).filter (·.pid ≠ p.number) := by
  have hl : (s.exit p).handles.filter (·.live) =
      (s.handles.filter fun o => o.process ≠ p && o.live).map
        fun o => if o.process = p then { o with live := false } else o := by
    rw [Sys.exit, List.filter_map]
    congr 1
    refine List.filter_congr fun o _ => ?_
    by_cases ho : o.process = p <;> simp [ho]
  have hv : Held.view ∘ (fun o => if o.process = p then { o with live := false } else o) =
      Held.view := by
    funext o
    dsimp only [Function.comp_apply]
    split <;> rfl
  rw [hl, List.map_map, hv, List.filter_map, List.filter_filter]
  congr 1
  exact List.filter_congr fun o _ => by simp [Held.view, Process.number_inj]

theorem exit (h : Refines s dead r) : Refines (s.exit p) (p :: dead) (r.exit p.number) where
  entries  := h.entries
  localMax := h.localMax
  handles  := by
    have hr : (r.exit p.number).handles.map forget =
        (r.handles.map forget).filter (·.pid ≠ p.number) := by
      rw [List.filter_map]
      rfl
    rw [handles_exit, hr]
    exact h.handles.filter _
  dead     := by
    intro q
    rw [Registry.Sys.exit, List.mem_cons, List.mem_cons, h.dead, Process.number_inj]

-- A registry that is reaped without an open. An open that fails does the same.
theorem reaped {procs : Procs} (h : Refines s dead r)
    (ha : ∀ id e, s.world.registry.lookup id = some e → (e.Alive procs ↔ e.process ∉ dead)) :
    Refines ⟨registryReap procs true s.world, s.keep (registryReap procs true s.world).registry⟩ dead
      (r.openNetwork self.number .network 1 ⟨true, 0, false⟩) where
  entries  := registryReap_view h.entries h.dead ha
  localMax := h.localMax
  handles  := filter_keep.symm ▸ h.handles
  dead     := h.dead

end Refines

section Steps

variable {c c' : Sys × List Process} {o o' : Held}

theorem SoundStep.step (hs : SoundStep k c c') : Step k c.1 c'.1 := by
  cases hs
  case opened ho hr _ => exact .opened ho hr
  case failed ho hr _ => exact .failed ho hr
  case unregister s _ _ env hr _ =>
    have he : env.settle s.world = registryReap env.procs (env.regOk && env.reapOk) s.world := by
      rw [RegEnv.settle]
      cases env.regOk <;> rfl
    exact he ▸ .unregister hr
  case closed hm hl => exact .closed hm hl
  case ended => exact .ended
  case other hf => exact .other hf

theorem OpenArgs.priority_of_valid (h : args.valid) :
    Registry.priorityLowest ≤ args.priority ∧ args.priority ≤ Registry.priorityHighest := by
  simp only [valid, Bool.and_eq_true, decide_eq_true_eq] at h
  exact h.left

-- Every step is one of the processes that share the registry, or changes nothing that it has.
theorem SoundStep.simulates (hs : SoundStep k c c') (h : Refines c.1 c.2 r) :
    ∃ r', Registry.Run r r' ∧ Refines c'.1 c'.2 r' := by
  cases hs
  case opened self env args _ _ ho _ hs =>
    obtain ⟨hv, f, _, _, ⟨a, ha, rfl⟩, rfl, rfl⟩ := ebpfdivertOpen_ok ho
    obtain ⟨h₁, h₂⟩ := OpenArgs.priority_of_valid hv
    rw [Core.prepare] at ha
    split_ifs at ha with hl
    case pos => exact ⟨_, .single (.openNetwork (h.lives hs) trivial hl h₁ h₂), h.opened_network hs ha⟩
    case neg =>
      exact ⟨_, .single (.registerHandle (h.lives hs) trivial (not_or.mp hl)), h.opened_other hs ha⟩
  case failed self env args _ _ ho _ hs =>
    rcases ebpfdivertOpen_error ho with rfl | ⟨hv, hl, hw⟩
    case inl => exact ⟨r, .refl, h.kept⟩
    case inr =>
      obtain ⟨h₁, h₂⟩ := OpenArgs.priority_of_valid hv
      exact ⟨_, .single (.openNetwork (h.lives hs) trivial hl h₁ h₂), h.failed hs hw⟩
  case unregister self env _ hs =>
    rw [RegEnv.settle]
    split_ifs with hr
    case neg => exact ⟨r, .refl, h.kept⟩
    case pos =>
      rw [hs.reapOk hr]
      refine ⟨_, .single (.openNetwork (h.lives hs) trivial (.inl rfl) ?_ ?_), h.reaped hs.alive⟩ <;> decide
  case closed hm hl =>
    obtain ⟨g, hg, hc⟩ := h.closed hm hl
    exact ⟨_, .single (@Registry.Step.close _ r g ⟨true, 0, true⟩ hg trivial), hc⟩
  case ended => exact ⟨_, .single .exit, h.exit⟩
  case other => exact ⟨r, .refl, h.entries, h.localMax, h.handles, h.dead⟩

theorem SoundRun.reachable (hr : SoundRun k c) : Reachable k c.1 := by
  induction hr
  case refl       => exact .refl
  case tail hs ih => exact ih.tail hs.step

-- Every run is one of the model in which priorities are chosen.
theorem SoundRun.simulates (hr : SoundRun k c) : ∃ r, Registry.Run .start r ∧ Refines c.1 c.2 r := by
  induction hr
  case refl => exact ⟨_, .refl, .start⟩
  case tail hs ih =>
    obtain ⟨r, hr, h⟩ := ih
    obtain ⟨r', hr', h'⟩ := hs.simulates h
    exact ⟨r', hr.trans hr', h'⟩

-- How the open handles of all processes have got their TC priorities.
theorem SoundRun.chosen (hr : SoundRun k c) (ho : o ∈ c.1.handles) (hl : o.live)
    (hn : o.view.IsNetwork) : ∃ found, Registry.Chosen { o.view with found } := by
  obtain ⟨r, hr, h⟩ := hr.simulates
  obtain ⟨g, hg, hv⟩ := h.exists_opened ho hl
  rw [← hv] at hn ⊢
  exact ⟨g.found, Registry.Run.chosen hr g hg hn⟩

theorem SoundRun.tcPrio_lt_iff (hr : SoundRun k c) (ho : o ∈ c.1.handles) (ho' : o' ∈ c.1.handles)
    (hl : o.live) (hl' : o'.live) (hn : o.view.IsNetwork) (hn' : o'.view.IsNetwork)
    (h₀ : o.h.priority ≠ 0) (h₀' : o'.h.priority ≠ 0) :
    o.h.tcPrio < o'.h.tcPrio ↔ o'.h.priority < o.h.priority := by
  obtain ⟨_, hc⟩ := hr.chosen ho hl hn
  obtain ⟨_, hc'⟩ := hr.chosen ho' hl' hn'
  have ht : (o.h.tcPrio : Int) = Registry.autoPriorityBase - o.h.priority := hc.tcPrio_eq h₀
  have ht' : (o'.h.tcPrio : Int) = Registry.autoPriorityBase - o'.h.priority := hc'.tcPrio_eq h₀'
  omega

-- One handle is open.
example : ∃ h w, SoundRun .counting (⟨w, [⟨⟨100, 5⟩, h, true⟩]⟩, []) := by
  obtain ⟨h, w, ho, -⟩ : ∃ h w, openAll 1 = (.ok h, w) ∧ h.att.length = 2 ∧ h.regId = 1 :=
    exists_openAll (by decide)
  refine ⟨h, w, .single <| .opened ho nofun ⟨fun _ => rfl, fun _ => rfl, ?_, by simp, rfl⟩⟩
  simp [Sys.start]

end Steps

-- What a handle of the reflect layer reads.
def Table.snapshot (t : Table) (junk : BitVec 64 → Nat → Bool) : Handle.Reflect.Snapshot where
  entries := t.toList.map fun x => (x.1, x.2.report)
  junk    := junk
  nodup   := by
    rw [List.map_map]
    exact BoundedMap.nodup_keys

theorem report_prepare {f : Wd.Filter} {env : RegEnv}
    (hc : c = (args.core w).prepare self env args.layer t f) :
    c.layer = args.layer ∧ c.flags = args.flags ∧ c.priority = args.priority ∧ c.filter = some f := by
  rw [hc, Core.prepare]
  split_ifs <;> exact ⟨rfl, rfl, rfl, rfl⟩

-- A handle that has been opened with an id is in the registry.
theorem open_registered {f : Wd.Filter} (ho : ebpfdivertOpen k self env args w = (.ok h, w'))
    (hz : h.regId ≠ 0) (hf : env.compiled = .ok f) :
    ∃ e, w'.registry.lookup h.regId = some e ∧ e.report =
      .of env.now (.ofNat 32 self.pid) args.layer args.flags args.priority (some f) := by
  obtain ⟨_, _, _, hf', ⟨a, ha, rfl⟩, rfl, rfl⟩ := ebpfdivertOpen_ok ho
  cases hf.symm.trans hf'
  rcases (registryAdd_cases : registryAdd self env.toRegEnv a = a ∨ _) with hr | ⟨t, _, ht, hr⟩
  case inl => exact absurd (by rw [hr, ha.regId]) hz
  case inr =>
    refine ⟨regEntry self env.toRegEnv a.h, ?_, ?_⟩
    case refine_1 =>
      rw [heartbeatAdd, hr]
      exact (BoundedMap.lookup_insertNew ht).trans (if_pos rfl)
    case refine_2 =>
      have hr : (regEntry self env.toRegEnv a.h).report =
        .of _ _ a.core.layer a.core.flags a.core.priority a.core.filter := rfl
      obtain ⟨hl, hg, hp, hc⟩ := report_prepare ha.core
      rw [hr, hl, hg, hp, hc]

end Setup

namespace Handle.Reflect

open Setup (Process World OpenEnv OpenArgs ebpfdivertOpen open_registered)

variable {k : Setup.Kernel} {self : Process} {env : OpenEnv} {args : OpenArgs} {h : Setup.Handle}
variable {w w' : World} {g : Handle} {s : Shared}

-- The next poll reports a handle that has been opened with an id, with its filter.
theorem open_polled (ho : ebpfdivertOpen k self env args w = (.ok h, w')) (hz : h.regId ≠ 0)
    (hl : g.layer = args.layer) (hf : g.flags = args.flags) (hc : env.compiled = .ok g.filter)
    (m : Malloc) (junk : BitVec 64 → Nat → Bool) (hs : s.Ok) (hn : (s.view.map (·.id)).Nodup)
    (hi : h.regId ∉ s.view.map (·.id)) :
    ∃ s' calls,
      poll m s.nseen ((w'.registry.snapshot junk).entries.map (w'.registry.snapshot junk).item) s =
        some (s', calls) ∧
      (Snapshot.record (h.regId, registryAdd g env.now (.ofNat 32 self.pid) args.priority)).call
        eventReflectOpen ∈ calls := by
  obtain ⟨e, he, hr⟩ := open_registered ho hz hc
  obtain ⟨s', closed, hp, _⟩ := poll_snapshot m (w'.registry.snapshot junk) hs hn
  refine ⟨s', _, hp, List.mem_append_left _ <| List.mem_map_of_mem ?_⟩
  refine List.mem_map_of_mem <| List.mem_filter.mpr ⟨?_, by simpa using hi⟩
  rw [registryAdd, hl, hf, ← hr]
  exact List.mem_map_of_mem (BoundedMap.mem_toList.mpr he)

end Handle.Reflect
