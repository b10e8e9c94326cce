import EbpfDivert.Setup.Theorems.Registry
import Mathlib

open Std.Do

namespace Setup

set_option mvcgen.warning false

variable {k : Kernel} {self : Process} {env : OpenEnv} {w : World} {s : Opening}

-- What the choice of a priority and the entry in the registry depend on.
structure Core where
  localMaxTcPrio : Process → Nat
  layer          : Wd.Layer
  flags          : BitVec 64
  priority       : Int
  tcPrio         : Nat
  filter         : Option Wd.Filter

def Opening.core (s : Opening) : Core :=
  ⟨s.world.localMaxTcPrio, s.h.layer, s.h.flags, s.h.priority, s.h.tcPrio, s.h.filter⟩

def Core.choose (self : Process) (env : RegEnv) (t : Table) (c : Core) : Core :=
  let localMax := c.localMaxTcPrio self
  let found := max (if env.regOk && env.maxOk then registryMaxTcPrio t else 0) localMax
  let tcPrio := Registry.chooseTcPrio c.priority found
  { c with
    tcPrio         := tcPrio
    localMaxTcPrio := if c.priority ≠ 0 then c.localMaxTcPrio
      else Function.update c.localMaxTcPrio self (max localMax tcPrio) }

-- Handles on the other layers have no TC priority.
def Core.prepare (self : Process) (env : RegEnv) (layer : Wd.Layer) (t : Table) (f : Wd.Filter)
    (c : Core) : Core :=
  if layer = .network ∨ layer = .networkForward then { c with filter := some f }.choose self env t
  else { c with filter := some f }

def OpenArgs.core (args : OpenArgs) (w : World) : Core :=
  ⟨w.localMaxTcPrio, args.layer, args.flags, args.priority, 0, none⟩

theorem core_chooseTcPrio {env : RegEnv} {s : Opening} :
    (chooseTcPrio self env s).core = s.core.choose self env s.world.registry :=
  rfl

variable {c : Core}

-- The handle accounts for all that is in the system now and was not there before.
structure Owned (w : World) (c : Core) (s : Opening) : Prop where
  proper   : ∀ a ∈ s.h.att, a.Proper
  nodup    : s.h.filters.Nodup
  new      : ∀ f ∈ s.h.filters, f ∉ w.filters
  filters  : s.world.filters = w.filters ∪ s.h.filters.toFinset
  newLinks : ∀ l ∈ s.h.links, l ∉ w.links
  links    : s.world.links = w.links ∪ s.h.links.toFinset
  registry : s.world.registry = w.registry
  hbList   : s.world.hbList = w.hbList
  regId    : s.h.regId = 0
  core     : s.core = c

theorem Owned.attach (h : Owned w c s) {a : Attachment} (hp : a.Proper)
    (hn : a.filter ∉ s.world.filters) :
    Owned w c { s with
      world.filters := insert a.filter s.world.filters
      h.att         := s.h.att ++ [a] } := by
  have hf : ({ s.h with att := s.h.att ++ [a] } : Handle).filters = s.h.filters ++ [a.filter] :=
    List.map_append ..
  rw [h.filters, Finset.mem_union, List.mem_toFinset, not_or] at hn
  constructor
  case proper   => exact List.forall_mem_append.mpr ⟨h.proper, by simpa using hp⟩
  case nodup    => exact hf ▸ h.nodup.append (List.nodup_singleton _) (by simpa using hn.right)
  case new      => exact hf ▸ List.forall_mem_append.mpr ⟨h.new, by simpa using hn.left⟩
  case filters  => simp [hf, h.filters, Finset.union_insert]
  case newLinks => exact h.newLinks
  case links    => exact h.links
  case registry => exact h.registry
  case hbList   => exact h.hbList
  case regId    => exact h.regId
  case core     => exact h.core

theorem Owned.link (h : Owned w c s) {l : Nat} (hn : l ∉ s.world.links) :
    Owned w c { s with world.links := insert l s.world.links, h.links := s.h.links ++ [l] } where
  proper   := h.proper
  nodup    := h.nodup
  new      := h.new
  filters  := h.filters
  newLinks := by
    rw [h.links, Finset.mem_union, not_or] at hn
    exact List.forall_mem_append.mpr ⟨h.newLinks, by simpa using hn.left⟩
  links    := by simp [h.links, Finset.union_insert]
  registry := h.registry
  hbList   := h.hbList
  regId    := h.regId
  core     := h.core

theorem Owned.skipLo (h : Owned w c s) : Owned w c { s with h.skipLo := true } :=
  { h with }

theorem Owned.chooseTcPrio {env : RegEnv} (h : Owned w c s) :
    Owned w (c.choose self env w.registry) (chooseTcPrio self env s) :=
  { h with core := by rw [core_chooseTcPrio, h.core, h.registry] }

theorem detachAll_eq {h : Handle} {filters : Finset TcFilter} (hp : ∀ a ∈ h.att, a.Proper) :
    detachAll h filters = filters \ h.filters.toFinset := by
  rw [← foldl_erase, Handle.filters, List.foldl_map]
  exact List.foldl_ext _ _ _ fun _ a ha => if_pos (hp a ha).legacy

theorem Owned.localMaxTcPrio (h : Owned w c s) : s.world.localMaxTcPrio = c.localMaxTcPrio := by
  rw [← h.core, Opening.core]

-- Nothing else is left of a handle that is freed.
theorem Owned.freeHandle (h : Owned w c s) :
    freeHandle s = { w with localMaxTcPrio := s.world.localMaxTcPrio } := by
  have hd : Disjoint w.filters s.h.filters.toFinset :=
    Finset.disjoint_right.mpr fun f hf => h.new f (List.mem_toFinset.mp hf)
  have hl : Disjoint w.links s.h.links.toFinset :=
    Finset.disjoint_right.mpr fun l hl => h.newLinks l (List.mem_toFinset.mp hl)
  rw [Setup.freeHandle, detachAll_eq h.proper, foldl_erase, h.filters, h.links,
    Finset.union_sdiff_cancel_right hd, Finset.union_sdiff_cancel_right hl, h.registry, h.hbList]

theorem attachLegacy_proper {env : IfaceEnv} {filters : Finset TcFilter} {ifindex tcPrio : Nat}
    {ingress : Bool} {a : Attachment}
    (h : attachLegacy k env filters ifindex ingress tcPrio = .ok a) :
    a.Proper ∧ a.filter ∉ filters := by
  have ha : a = ⟨ifindex, ingress, ⟨ifindex, attachPoint ingress⟩,
      ⟨k.handle filters ⟨ifindex, attachPoint ingress⟩ tcPrio, tcPrio⟩, true⟩ := by
    simp only [attachLegacy] at h
    repeat' split at h
    all_goals first | cases h; rfl | cases h
  rw [ha]
  exact ⟨⟨rfl, rfl⟩, k.handle_fresh _ _ _⟩

theorem attachOne_spec {env : IfaceEnv} {ifindex : Nat} {ingress : Bool} :
    ⦃fun s => ⌜Owned w c s⌝⦄ attachOne k env ifindex ingress ⦃⇓ _ s => ⌜Owned w c s⌝⦄ := by
  mvcgen [attachOne]
  case vc3 h _ _ ha =>
    have ⟨hp, hn⟩ := attachLegacy_proper ha
    exact h.attach hp hn

theorem attachInterfaces_spec {env : IfaceEnv} {ifnames : Option (List String)} :
    ⦃fun s => ⌜Owned w c s⌝⦄ attachInterfaces k env ifnames
    ⦃post⟨fun _ s => ⌜Owned w c s⌝, fun _ s => ⌜Owned w c s⌝⟩⦄ := by
  mvcgen [attachInterfaces, lift, attachOne_spec]
  case inv1 | inv2 => exact post⟨fun _ s => ⌜Owned w c s⌝, fun _ s => ⌜Owned w c s⌝⟩
  all_goals first | assumption | exact Owned.skipLo ‹_› | exact ExceptConds.entails.rfl

-- As long as no filter has been attached.
structure Unattached (w : World) (c : Core) (s : Opening) : Prop extends Owned w c s where
  att : s.h.att = []

theorem Unattached.filter (h : Unattached w c s) {f : Wd.Filter} :
    Unattached w { c with filter := some f } { s with h.filter := some f } :=
  { h with core := by rw [← h.core]; rfl }

theorem Unattached.settle {env : RegEnv} (h : Unattached w c s) :
    Unattached (env.settle w) c { s with world := env.settle s.world } := by
  have hn : s.h.filters = [] := congrArg (List.map _) h.att
  have hf : s.world.filters = w.filters := by simpa [hn] using h.filters
  exact
    { h with
      new      := by simp [hn]
      filters  := by simp [hn, filters_settle_congr hf h.registry]
      newLinks := by simpa using h.newLinks
      links    := by simpa using h.links
      registry := registry_settle_congr h.registry
      hbList   := by simpa using h.hbList
      core     := by simpa [Opening.core] using h.core }

theorem attachCgroupProg_spec {name : String} :
    ⦃fun s => ⌜Unattached w c s⌝⦄ attachCgroupProg k env name
    ⦃post⟨fun _ s => ⌜Unattached w c s⌝, fun _ s => ⌜Unattached w c s⌝⟩⦄ := by
  mvcgen [attachCgroupProg, check]
  case vc2 h _ _ _ _ _ _ => exact { h.toOwned.link (k.link_fresh _) with att := h.att }

variable (k env w c) in
theorem openEvents_spec (filter : Wd.Filter) :
    ⦃fun s => ⌜Unattached w c s⌝⦄ openEvents k env filter
    ⦃post⟨fun _ s => ⌜Unattached w c s⌝, fun _ s => ⌜Unattached w c s⌝⟩⦄ := by
  mvcgen [openEvents, check, attachCgroupProg_spec]
  case inv1 | inv2 => exact post⟨fun _ s => ⌜Unattached w c s⌝, fun _ s => ⌜Unattached w c s⌝⟩
  all_goals first | assumption | exact ExceptConds.entails.rfl | simp

variable (env w c) in
theorem loadNetwork_spec (filter : Wd.Filter) :
    ⦃fun s => ⌜Unattached w c s⌝⦄ loadNetwork env filter
    ⦃post⟨fun _ s => ⌜Unattached w c s⌝, fun _ s => ⌜Unattached w c s⌝⟩⦄ := by
  mvcgen [loadNetwork, loadRules, check]

-- A handle that has been opened, before and after it is registered.
def Registered (self : Process) (env : RegEnv) (w : World) (c : Core) (s : Opening) : Prop :=
  ∃ s', Owned (env.settle w) c s' ∧ s = registryAdd self env s'

variable (k self env w c) in
theorem attachNetwork_spec (ifnames : Option (List String)) :
    ⦃fun s => ⌜Unattached w c s⌝⦄ attachNetwork k self env ifnames
    ⦃post⟨
      fun _ s => ⌜Registered self env.toRegEnv w (c.choose self env.toRegEnv (env.settle w).registry) s⌝,
      fun _ s => ⌜Owned (env.settle w) (c.choose self env.toRegEnv (env.settle w).registry) s⌝⟩⦄ := by
  have key {s} (h : Unattached w c s) :
      Owned (env.settle w) (c.choose self env.toRegEnv (env.settle w).registry)
        (chooseTcPrio self env.toRegEnv { s with world := env.settle s.world }) :=
    h.settle.toOwned.chooseTcPrio
  mvcgen [attachNetwork, check, attachInterfaces_spec]
  all_goals first
    | exact key ‹_›
    | exact ⟨_, ‹_›, rfl⟩
    | exact ⟨_, key ‹_›, rfl⟩

variable (env w c) in
theorem openReflect_spec :
    ⦃fun s => ⌜Unattached w c s⌝⦄ openReflect env
    ⦃post⟨fun _ s => ⌜Unattached w c s⌝, fun _ s => ⌜Unattached w c s⌝⟩⦄ := by
  mvcgen [openReflect, check]

-- How the attempt to open a handle ends.
def Outcome (self : Process) (env : OpenEnv) (layer : Wd.Layer) (w : World) (c : Core) :
    EStateM.Result Errno Opening Unit → Prop
  | .ok _ s    => ∃ f, env.compiled = .ok f ∧
    Registered self env.toRegEnv w (c.prepare self env.toRegEnv layer (env.settle w).registry f) s
  | .error _ s => (∃ c', c'.localMaxTcPrio = c.localMaxTcPrio ∧ Owned w c' s) ∨
    (layer = .network ∨ layer = .networkForward) ∧ ∃ f, env.compiled = .ok f ∧
      Owned (env.settle w) (c.prepare self env.toRegEnv layer (env.settle w).registry f) s

section

variable {args : OpenArgs} {f : Wd.Filter}

theorem Outcome.early {c' : Core} {e : Errno} (h : Owned w c' s)
    (hc : c'.localMaxTcPrio = c.localMaxTcPrio) : Outcome self env args.layer w c (.error e s) :=
  .inl ⟨c', hc, h⟩

theorem Outcome.late {e : Errno} (hl : args.layer = .network ∨ args.layer = .networkForward)
    (hf : env.compiled = .ok f)
    (h : Owned (env.settle w)
      ({ c with filter := some f }.choose self env.toRegEnv (env.settle w).registry) s) :
    Outcome self env args.layer w c (.error e s) :=
  .inr ⟨hl, f, hf, by rwa [Core.prepare, if_pos hl]⟩

theorem Outcome.network {a : Unit} (hl : args.layer = .network ∨ args.layer = .networkForward)
    (hf : env.compiled = .ok f)
    (h : Registered self env.toRegEnv w
      ({ c with filter := some f }.choose self env.toRegEnv (env.settle w).registry) s) :
    Outcome self env args.layer w c (.ok a s) :=
  ⟨f, hf, by rwa [Core.prepare, if_pos hl]⟩

theorem Outcome.other {a : Unit} (hl : ¬(args.layer = .network ∨ args.layer = .networkForward))
    (hf : env.compiled = .ok f) (h : Unattached w { c with filter := some f } s) :
    Outcome self env args.layer w c (.ok a (registerHandle self env.toRegEnv s)) :=
  ⟨f, hf, _, by simpa [Core.prepare, if_neg hl] using h.settle.toOwned, rfl⟩

theorem openLayer_spec :
    ⦃fun s => ⌜Unattached w c s⌝⦄ openLayer k self env args
    ⦃post⟨fun a s => ⌜Outcome self env args.layer w c (.ok a s)⌝,
      fun e s => ⌜Outcome self env args.layer w c (.error e s)⌝⟩⦄ := by
  rcases hc : env.compiled with e | f
  case error =>
    simp only [openLayer, hc, lift]
    mvcgen [check]
    all_goals exact .early (Unattached.toOwned ‹_›) rfl
  case ok =>
    simp only [openLayer, hc, lift, openNetwork]
    -- All that comes after the filter has been compiled.
    let c' : Core := { c with filter := some f }
    have load := loadNetwork_spec env w c'
    have attach := attachNetwork_spec k self env w c'
    have events := openEvents_spec k env w c'
    have reflect := openReflect_spec env w c'
    mvcgen [check, load, attach, events, reflect]
    all_goals first
      | exact Unattached.filter ‹_›
      | exact .early (Unattached.toOwned ‹_›) rfl
      | exact fun h => .early h.toOwned rfl
      | exact .late (by simp [*]) hc
      | exact .network (by simp [*]) hc
      | exact .other (by simp [*]) hc ‹_›

end

theorem Unattached.of_new {args : OpenArgs} : Unattached w (args.core w) ⟨w, .new env args⟩ where
  proper   := by simp [Handle.new]
  nodup    := List.nodup_nil
  new      := by simp [Handle.new, Handle.filters]
  filters  := by simp [Handle.new, Handle.filters]
  newLinks := by simp [Handle.new]
  links    := by simp [Handle.new]
  registry := rfl
  hbList   := rfl
  regId    := rfl
  core     := rfl
  att      := rfl

theorem openLayer_outcome {args : OpenArgs} :
    Outcome self env args.layer w (args.core w) (openLayer k self env args ⟨w, .new env args⟩) :=
  EStateM.of_wp_run_eq rfl _ fun _ => openLayer_spec _ Unattached.of_new

-- A failed open leaves nothing behind, unless it has got to the registry.
theorem ebpfdivertOpen_error {args : OpenArgs} {e : Errno} {w' : World}
    (h : ebpfdivertOpen k self env args w = (.error e, w')) :
    w' = w ∨ args.valid ∧ (args.layer = .network ∨ args.layer = .networkForward) ∧
      w' = { env.settle w with
        localMaxTcPrio :=
          ((args.core w).choose self env.toRegEnv (env.settle w).registry).localMaxTcPrio } := by
  rw [ebpfdivertOpen] at h
  split_ifs at h with hv
  · cases h
    exact .inl rfl
  · cases h
    exact .inl rfl
  · split at h
    case h_1 => cases h
    case h_2 hr =>
      cases h
      have hr : Outcome self env args.layer w (args.core w) _ := hr ▸ openLayer_outcome
      rcases hr with ⟨c', hc, ho⟩ | ⟨hl, f, _, ho⟩
      case inl =>
        refine .inl (ho.freeHandle.trans ?_)
        rw [ho.localMaxTcPrio, hc]
        rfl
      case inr =>
        refine .inr ⟨by simpa using hv, hl, ho.freeHandle.trans ?_⟩
        rw [ho.localMaxTcPrio, Core.prepare, if_pos hl]
        rfl

theorem ebpfdivertOpen_ok {args : OpenArgs} {h : Handle} {w' : World}
    (ho : ebpfdivertOpen k self env args w = (.ok h, w')) :
    args.valid ∧ ∃ f s, env.compiled = .ok f ∧ Registered self env.toRegEnv w
      ((args.core w).prepare self env.toRegEnv args.layer (env.settle w).registry f) s ∧
      h = s.h ∧ w' = heartbeatAdd self s := by
  rw [ebpfdivertOpen] at ho
  split_ifs at ho with hv
  · cases ho
  · cases ho
  · split at ho
    case h_1 hr =>
      cases ho
      have hr : Outcome self env args.layer w (args.core w) _ := hr ▸ openLayer_outcome
      obtain ⟨f, hc, hr⟩ := hr
      exact ⟨by simpa using hv, f, _, hc, hr, rfl, rfl⟩
    case h_2 => cases ho

-- A process that is there and whose start time can be read.
structure Procs.Shows (procs : Procs) (p : Process) : Prop where
  kill : procs.kill p.pid ≠ some .srch
  stat : procs.stat p.pid = some p.start

theorem Procs.Shows.alive {procs : Procs} {p : Process} (h : procs.Shows p) {e : RegEntry}
    (hp : e.pid = p.pid) (hs : e.pidStart = p.start) : e.Alive procs := by
  simp [RegEntry.Alive, procAlive, procStartTime, hp, hs, h.kill, h.stat]

-- What is left of a failed open: at most, what belonged to dead processes has been reaped.
theorem open_failed {args : OpenArgs} {err : Errno} {w' : World}
    (h : ebpfdivertOpen k self env args w = (.error err, w')) :
    w'.links = w.links ∧ w'.hbList = w.hbList ∧
    (w'.filters = w.filters ∧ w'.registry = w.registry ∨
      (args.layer = .network ∨ args.layer = .networkForward) ∧
      (∀ f, f ∈ w'.filters ↔ f ∈ w.filters ∧
        ¬∃ id e, (w.registry.lookup id = some e ∧ ¬e.Alive env.procs) ∧ f ∈ e.named) ∧
      ∀ id, w'.registry.lookup id = (w.registry.lookup id).filter (fun e => e.Alive env.procs)) ∧
    ∀ p id e, env.procs.Shows p → e.pid = p.pid → e.pidStart = p.start →
      w.registry.lookup id = some e → w'.registry.lookup id = some e := by
  have hc : ∃ localMaxTcPrio, w' = { w with localMaxTcPrio } ∨
      (args.layer = .network ∨ args.layer = .networkForward) ∧
        w' = { registryReap env.procs true w with localMaxTcPrio } := by
    rcases ebpfdivertOpen_error h with rfl | ⟨_, hl, rfl⟩
    case inl => exact ⟨_, .inl rfl⟩
    case inr =>
      rcases (settle_cases : env.settle w = w ∨ _) with hs | hs
      case inl => exact ⟨_, .inl (by rw [hs])⟩
      case inr => exact ⟨_, .inr ⟨hl, by rw [hs]⟩⟩
  obtain ⟨m, rfl | ⟨hl, rfl⟩⟩ := hc
  case inl => exact ⟨rfl, rfl, .inl ⟨rfl, rfl⟩, fun _ _ _ _ _ _ hr => hr⟩
  case inr =>
    refine ⟨rfl, rfl, .inr ⟨hl, fun f => mem_filters_registryReap, fun id => lookup_registryReap⟩, ?_⟩
    intro p id e hs hp ht hr
    have ha := hs.alive hp ht
    exact lookup_registryReap.trans (by simp [hr, Option.filter, ha])

-- A kernel that counts upwards.
section Count

def count {α : Type} (n : α → Nat) (s : Finset α) : Nat :=
  s.sup n + 1

theorem not_mem_of_count {α : Type} {n : α → Nat} {s : Finset α} {a : α} (h : n a = count n s) :
    a ∉ s :=
  fun hm => absurd (Finset.le_sup (f := n) hm) (by rw [h, count]; omega)

def Kernel.counting : Kernel where
  handle filters _ _ := count (·.opts.handle) filters
  handle_fresh _ _ _ := not_mem_of_count (n := fun f : TcFilter => f.opts.handle) rfl
  link               := count id
  link_fresh _       := not_mem_of_count (n := id) rfl

end Count

-- Nothing goes wrong.
def smooth (ifs : List Iface) (procs : Procs) : OpenEnv where
  ifs          := .ok ifs
  attOk        := true
  nameOk _     := true
  progOk _     := true
  hookErr _    := none
  attachErr _  := none
  regOk        := true
  reapOk       := true
  maxOk        := true
  addOk        := true
  updateOk     := true
  id           := 1
  procs        := procs
  now          := 0
  allocOk      := true
  addr         := 0
  lo           := 1
  fdsErr       := none
  wakeErr      := none
  compiled     := .ok ⟨.network, [⟨.zero, .eq, Wd.resultAccept, Wd.resultReject, false, .ofNarrow 0⟩]⟩
  filterFlags  := 0
  objectErr    := none
  loadErr      := none
  mapsOk       := true
  resOk        := true
  rulesMapsOk  := true
  lowerOk      := true
  rulesErr     := none
  configErr    := none
  reconfigErr  := none
  ringErr      := none
  ringEpollErr := none
  cgroupErr    := none
  cgroupProgOk _ := true
  linkErr _    := none
  timerErr     := none
  timerSetErr  := none
  timerPollErr := none

-- A filter on `eth0`.
def eth0 : RegAttach := ⟨2, .ingress, 1, 30001⟩

-- A process has attached it and is recorded in the registry.
def recorded : World where
  filters          := {eth0.filter}
  links            := ∅
  registry         :=
    ⟨.singleton 7 ⟨100, 5, 30001, true, [eth0], by decide, .of 0 100 .network 0 0 none⟩, by decide⟩
  hbList _         := []
  localMaxTcPrio _ := 0

def allInterfaces : OpenArgs := ⟨.network, 0, 0, none⟩

-- The list of interfaces cannot be read.
def noInterfaces (procs : Procs) : OpenEnv :=
  { smooth [] procs with ifs := .error (.sys 24) }

-- The process runs, it has ended, or it runs and its start time cannot be read.
def running    : Procs := ⟨fun _ => none, fun _ => some 5⟩
def gone       : Procs := ⟨fun _ => some .srch, fun _ => none⟩
def unreadable : Procs := ⟨fun _ => none, fun _ => none⟩

theorem open_failed_running :
    ∃ w', ebpfdivertOpen .counting ⟨200, 9⟩ (noInterfaces running) allInterfaces recorded =
      (.error (.sys 24), w') ∧ w'.registry.lookup 7 = recorded.registry.lookup 7 := by
  have hr : ebpfdivertOpen .counting ⟨200, 9⟩ (noInterfaces running) allInterfaces recorded =
    (.error (.sys 24), _) := rfl
  have hs : (noInterfaces running).procs.Shows ⟨100, 5⟩ := ⟨by decide, rfl⟩
  exact ⟨_, hr, (open_failed hr).2.2.2 ⟨100, 5⟩ 7 _ hs rfl rfl rfl⟩

-- The filter of a process that has ended is detached. So is that of a process whose start time
-- cannot be read.
theorem open_failed_reaps :
    (∃ w', ebpfdivertOpen .counting ⟨200, 9⟩ (noInterfaces gone) allInterfaces recorded =
      (.error (.sys 24), w') ∧ recorded.filters = {eth0.filter} ∧ w'.filters = ∅) ∧
    ∃ w', ebpfdivertOpen .counting ⟨200, 9⟩ (noInterfaces unreadable) allInterfaces recorded =
      (.error (.sys 24), w') ∧ (recorded.registry.lookup 7).isSome ∧ w'.registry.lookup 7 = none :=
  ⟨⟨_, rfl, rfl, by decide⟩, _, rfl, rfl, by decide⟩

end Setup
