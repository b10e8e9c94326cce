import EbpfDivert.Registry.Basic
import Mathlib.Data.List.Nodup
import Mathlib.Data.List.Perm.Subperm

namespace Registry

variable {s s' : Sys} {env : OpenEnv} {pid : Nat} {layer : Wd.Layer} {priority : Int}
variable {entries : List RegEntry} {e : RegEntry} {g h : Opened} {found : Nat}

theorem le_registryMaxTcPrio (he : e ∈ entries) : e.tcPrio ≤ registryMaxTcPrio entries := by
  rw [registryMaxTcPrio]
  induction entries
  case nil => cases he
  case cons e' entries ih =>
    rw [List.map_cons, List.foldr_cons]
    rcases List.mem_cons.mp he with rfl | he
    case inl => exact Nat.le_max_left ..
    case inr => exact Nat.le_trans (ih he) (Nat.le_max_right ..)

theorem nextPrio_le : nextPrio found ≤ 0xFFFF :=
  Nat.min_le_right ..

theorem lt_nextPrio {n : Nat} (hf : n ≤ found) (hn : n < 0xFFFF) : n < nextPrio found := by
  rw [nextPrio, autoPriorityBase]
  split_ifs <;> omega

-- All TC priorities fit into the mark of a packet.
theorem chooseTcPrio_le (h₁ : priorityLowest ≤ priority) : chooseTcPrio priority found ≤ 0xFFFF := by
  rw [chooseTcPrio]
  rw [priorityLowest] at h₁
  split_ifs
  case pos => simp only [autoPriorityBase]; omega
  case neg => exact nextPrio_le

-- What `openNetwork` adds.
def Sys.newHandle (s : Sys) (pid : Nat) (layer : Wd.Layer) (priority : Int) (env : OpenEnv) : Opened :=
  let entries := if env.regOk then registryReap s else s.entries
  let found := max (if env.regOk then registryMaxTcPrio entries else 0) (s.localMax pid)
  let tcPrio := chooseTcPrio priority found
  ⟨if env.regOk then (registryAdd entries ⟨env.id, pid, tcPrio⟩).2 else 0, pid, layer, priority,
    tcPrio, found⟩

theorem openNetwork_handles : (s.openNetwork pid layer priority env).handles =
    if env.openOk then s.handles ++ [s.newHandle pid layer priority env] else s.handles := by
  simp only [Sys.openNetwork, Sys.newHandle]
  cases env.openOk <;> cases env.regOk <;> rfl

theorem openNetwork_localMax : (s.openNetwork pid layer priority env).localMax =
    if priority ≠ 0 then s.localMax
    else Function.update s.localMax pid
      (max (s.localMax pid) (s.newHandle pid layer priority env).tcPrio) := by
  simp only [Sys.openNetwork, Sys.newHandle]
  cases env.openOk <;> rfl

-- The entries with that of a new handle, and its id.
def Sys.entered (s : Sys) (pid tcPrio : Nat) (env : OpenEnv) : List RegEntry × BitVec 64 :=
  if env.regOk then registryAdd (registryReap s) ⟨env.id, pid, tcPrio⟩ else (s.entries, 0)

theorem openNetwork_entries : (s.openNetwork pid layer priority env).entries =
    if env.openOk then (s.entered pid (s.newHandle pid layer priority env).tcPrio env).1
    else if env.regOk then registryReap s else s.entries := by
  simp only [Sys.openNetwork, Sys.newHandle, Sys.entered]
  cases env.openOk <;> cases env.regOk <;> rfl

theorem regId_newHandle : (s.newHandle pid layer priority env).regId =
    (s.entered pid (s.newHandle pid layer priority env).tcPrio env).2 := by
  simp only [Sys.newHandle, Sys.entered]
  cases env.regOk <;> rfl

theorem openNetwork_dead : (s.openNetwork pid layer priority env).dead = s.dead := by
  rw [Sys.openNetwork]
  cases env.openOk <;> rfl

-- The invariant of a system whose processes share the registry: every handle has an entry of its
-- own, and every entry of a living process has a handle.
structure Sys.Ok (s : Sys) : Prop where
  bound : ∀ h ∈ s.handles, h.tcPrio ≤ 0xFFFF
  regId : ∀ h ∈ s.handles, h.regId ≠ 0
  alive : ∀ h ∈ s.handles, h.pid ∉ s.dead
  entry : ∀ h ∈ s.handles, ⟨h.regId, h.pid, h.tcPrio⟩ ∈ s.entries
  owner : ∀ e ∈ s.entries, e.pid ∉ s.dead → ∃ h ∈ s.handles, h.regId = e.id ∧ h.pid = e.pid
  nodup : (s.handles.map (·.regId)).Nodup
  ids   : (s.entries.map (·.id)).Nodup

theorem ok_start : Sys.start.Ok :=
  ⟨nofun, nofun, nofun, nofun, nofun, .nil, .nil⟩

theorem mem_registryReap : e ∈ registryReap s ↔ e ∈ s.entries ∧ e.pid ∉ s.dead := by
  simp [registryReap]

theorem Sys.Ok.length_reap (hs : s.Ok) : (registryReap s).length ≤ s.handles.length := by
  have hsub : (registryReap s).map (·.id) ⊆ s.handles.map (·.regId) := by
    intro id hi
    obtain ⟨e, he, rfl⟩ := List.mem_map.mp hi
    have ⟨he, hp⟩ := mem_registryReap.mp he
    obtain ⟨h, hm, hr, _⟩ := hs.owner e he hp
    exact List.mem_map.mpr ⟨h, hm, hr⟩
  have hn : ((registryReap s).map (·.id)).Nodup := hs.ids.sublist (List.filter_sublist.map _)
  simpa using (List.subperm_of_subset hn hsub).length_le

theorem Sys.Ok.reap (hs : s.Ok) {localMax : Nat → Nat} :
    Sys.Ok ⟨registryReap s, localMax, s.handles, s.dead⟩ where
  bound      := hs.bound
  regId      := hs.regId
  alive      := hs.alive
  entry h hm := mem_registryReap.mpr ⟨hs.entry h hm, hs.alive h hm⟩
  owner e he := hs.owner e (mem_registryReap.mp he).left
  nodup      := hs.nodup
  ids        := hs.ids.sublist (List.filter_sublist.map _)

-- Adding a handle together with its entry.
theorem Sys.Ok.add (hs : s.Ok) (hz : h.regId ≠ 0) (h₀ : h.regId ∉ s.entries.map (·.id))
    (hp : h.pid ∉ s.dead) (hb : h.tcPrio ≤ 0xFFFF) :
    Sys.Ok { s with
      entries := s.entries ++ [⟨h.regId, h.pid, h.tcPrio⟩]
      handles := s.handles ++ [h] } := by
  constructor
  case bound => exact List.forall_mem_append.mpr ⟨hs.bound, by simpa using hb⟩
  case regId => exact List.forall_mem_append.mpr ⟨hs.regId, by simpa using hz⟩
  case alive => exact List.forall_mem_append.mpr ⟨hs.alive, by simpa using hp⟩
  case entry =>
    refine List.forall_mem_append.mpr ⟨fun g hg => ?_, by simp⟩
    exact List.mem_append_left _ (hs.entry g hg)
  case owner =>
    refine List.forall_mem_append.mpr ⟨fun e he hd => ?_, by simp⟩
    have ⟨g, hg, hi⟩ := hs.owner e he hd
    exact ⟨g, List.mem_append_left _ hg, hi⟩
  case nodup =>
    rw [List.map_append]
    refine hs.nodup.append (List.nodup_singleton _) ?_
    simp only [List.map_cons, List.map_nil, List.disjoint_singleton]
    intro hm
    obtain ⟨g, hg, he⟩ := List.mem_map.mp hm
    exact h₀ <| List.mem_map.mpr ⟨_, hs.entry g hg, he⟩
  case ids =>
    rw [List.map_append]
    exact hs.ids.append (List.nodup_singleton _) (List.disjoint_singleton.mpr h₀)

theorem registryAdd_eq {id : BitVec 64} {tcPrio : Nat} (h₀ : id ≠ 0) (hi : id ∉ entries.map (·.id))
    (hl : entries.length < registryMax) :
    registryAdd entries ⟨id, pid, tcPrio⟩ = (entries ++ [⟨id, pid, tcPrio⟩], id) :=
  if_pos ⟨h₀, hi, hl⟩

theorem Shared.reap (he : Shared s env) : env.id ∉ (registryReap s).map (·.id) :=
  fun hm => he.right.right <| (List.filter_sublist.map _).subset hm

theorem Sys.Ok.openNetwork (hs : s.Ok) (he : Shared s env) (hp : pid ∉ s.dead)
    (h₁ : priorityLowest ≤ priority)
    (hl : (s.openNetwork pid layer priority env).handles.length ≤ registryMax) :
    (s.openNetwork pid layer priority env).Ok := by
  rw [openNetwork_handles] at hl
  simp only [Sys.openNetwork, he.left, ↓reduceIte]
  cases ho : env.openOk
  case false => exact hs.reap
  case true =>
    simp only [Bool.not_true, Bool.false_eq_true, ↓reduceIte]
    have hlen : (registryReap s).length < registryMax := by
      have := hs.length_reap
      simp only [ho, ↓reduceIte, List.length_append, List.length_singleton] at hl
      omega
    rw [registryAdd_eq he.right.left he.reap hlen]
    exact hs.reap.add (h := ⟨env.id, pid, layer, priority, _, _⟩) he.right.left he.reap hp
      (chooseTcPrio_le h₁)

theorem Sys.Ok.registerHandle (hs : s.Ok) (he : Shared s env) (hp : pid ∉ s.dead)
    (hl : (s.registerHandle pid layer priority env).handles.length ≤ registryMax) :
    (s.registerHandle pid layer priority env).Ok := by
  have hlen : (registryReap s).length < registryMax := by
    have := hs.length_reap
    simp only [Sys.registerHandle, List.length_append, List.length_singleton] at hl
    omega
  simp only [Sys.registerHandle, he.left, ↓reduceIte, registryAdd_eq he.right.left he.reap hlen]
  exact hs.reap.add (h := ⟨env.id, pid, layer, priority, 0, 0⟩) he.right.left he.reap hp
    (Nat.zero_le _)

theorem Sys.Ok.close (hs : s.Ok) (hm : h ∈ s.handles) : (s.close h true).Ok := by
  have hn : s.handles.Nodup := hs.nodup.of_map _
  have hmem {g : Opened} : g ∈ s.handles.erase h ↔ g ≠ h ∧ g ∈ s.handles := hn.mem_erase_iff
  -- No other handle has the id of `h`.
  have hid {g : Opened} (hg : g ∈ s.handles) (he : g.regId = h.regId) : g = h :=
    List.inj_on_of_nodup_map hs.nodup hg hm he
  simp only [Sys.close, hs.regId h hm, ne_eq, not_false_eq_true, and_self, ↓reduceIte]
  constructor
  case bound => exact fun g hg => hs.bound g (hmem.mp hg).right
  case regId => exact fun g hg => hs.regId g (hmem.mp hg).right
  case alive => exact fun g hg => hs.alive g (hmem.mp hg).right
  case entry =>
    intro g hg
    have ⟨hne, hg⟩ := hmem.mp hg
    exact List.mem_filter.mpr ⟨hs.entry g hg, by simpa using fun he => hne (hid hg he)⟩
  case owner =>
    intro e he hd
    have ⟨he, hi⟩ := List.mem_filter.mp he
    have ⟨g, hg, hr, hp⟩ := hs.owner e he hd
    refine ⟨g, hmem.mpr ⟨?_, hg⟩, hr, hp⟩
    rintro rfl
    simp [hr] at hi
  case nodup => exact hs.nodup.sublist (List.erase_sublist.map _)
  case ids   => exact hs.ids.sublist (List.filter_sublist.map _)

theorem Sys.Ok.exit (hs : s.Ok) : (s.exit pid).Ok := by
  have hmem {g : Opened} : g ∈ (s.exit pid).handles ↔ g ∈ s.handles ∧ g.pid ≠ pid := by
    simp [Sys.exit]
  constructor
  case bound => exact fun g hg => hs.bound g (hmem.mp hg).left
  case regId => exact fun g hg => hs.regId g (hmem.mp hg).left
  case alive =>
    intro g hg
    have ⟨hg, hp⟩ := hmem.mp hg
    exact List.not_mem_cons_of_ne_of_not_mem hp (hs.alive g hg)
  case entry => exact fun g hg => hs.entry g (hmem.mp hg).left
  case owner =>
    intro e he hd
    have ⟨hne, hd⟩ := List.ne_and_not_mem_of_not_mem_cons hd
    have ⟨g, hg, hr, hp⟩ := hs.owner e he hd
    exact ⟨g, hmem.mpr ⟨hg, hp ▸ hne⟩, hr, hp⟩
  case nodup => exact hs.nodup.sublist (List.filter_sublist.map _)
  case ids   => exact hs.ids

theorem Step.ok (hs : Step Shared s s') (hl : s'.handles.length ≤ registryMax) (ho : s.Ok) :
    s'.Ok := by
  cases hs
  case openNetwork hp he _ h₁ _   => exact ho.openNetwork he hp h₁ hl
  case registerHandle hp he _     => exact ho.registerHandle he hp hl
  case close hm he                => exact he.left ▸ ho.close hm
  case exit                       => exact ho.exit

theorem SharedRun.ok (hr : SharedRun .start s) : s.Ok := by
  induction hr
  case refl       => exact ok_start
  case tail hs ih => exact hs.left.ok hs.right ih

-- What an open finds is at least the TC priority of every handle.
theorem Sys.Ok.le_found (ho : s.Ok) (he : Shared s env) (hg : g ∈ s.handles) :
    g.tcPrio ≤ (s.newHandle pid layer priority env).found := by
  simp only [Sys.newHandle, he.left, ↓reduceIte]
  have hm := mem_registryReap.mpr ⟨ho.entry g hg, ho.alive g hg⟩
  exact Nat.le_trans (le_registryMaxTcPrio hm) (Nat.le_max_left ..)

-- A handle with priority 0 comes after every existing handle if and only if none of them has the
-- last TC priority.
theorem zero_after_all_iff (hr : SharedRun .start s) (he : Shared s env) (ho : env.openOk)
    (pid : Nat) (layer : Wd.Layer) :
    ∃ h, (s.openNetwork pid layer 0 env).handles = s.handles ++ [h] ∧ h.priority = 0 ∧
      ((∀ g ∈ s.handles, g.IsNetwork → g.tcPrio < h.tcPrio) ↔
        ∀ g ∈ s.handles, g.IsNetwork → g.tcPrio ≠ 0xFFFF) := by
  refine ⟨s.newHandle pid layer 0 env, by rw [openNetwork_handles, if_pos ho], rfl, ?_⟩
  refine forall₂_congr fun g hg => imp_congr_right fun _ => ?_
  have hb := hr.ok.bound g hg
  have hf : g.tcPrio ≤ (s.newHandle pid layer 0 env).found := hr.ok.le_found he hg
  have hl : (s.newHandle pid layer 0 env).tcPrio ≤ 0xFFFF := nextPrio_le
  refine ⟨fun h he => ?_, fun h => lt_nextPrio hf (Nat.lt_of_le_of_ne hb h)⟩
  omega

-- A process that keeps one handle open, opens another one with priority 0 and closes the first one
-- climbs from one TC priority to the next.
def climber (id : BitVec 64) (n found : Nat) : Opened :=
  ⟨id, 0, .network, 0, n, found⟩

def climbed (id : BitVec 64) (n found : Nat) : Sys where
  entries  := [⟨id, 0, n⟩]
  localMax := Function.update (fun _ => 0) 0 n
  handles  := [climber id n found]
  dead     := []

theorem climb_first : SharedRun .start (climbed 1 30001 0) := by
  have he : Shared .start ⟨true, 1, true⟩ := ⟨rfl, by decide, by simp [Sys.start]⟩
  have hs : Step Shared .start (Sys.start.openNetwork 0 .network 0 ⟨true, 1, true⟩) :=
    .openNetwork (by simp [Sys.start]) he (.inl rfl) (by decide) (by decide)
  exact .single ⟨hs, by decide⟩

-- Both handles are open.
def climbing (id id' : BitVec 64) (n m found : Nat) : Sys where
  entries  := [⟨id, 0, n⟩, ⟨id', 0, m⟩]
  localMax := Function.update (fun _ => 0) 0 m
  handles  := [climber id n found, climber id' m n]
  dead     := []

variable {id id' : BitVec 64} {n m : Nat}

theorem climb_open (hm : nextPrio n = m) (hn : n ≤ m) (hi : id' ≠ id) (hz : id' ≠ 0) :
    (climbed id n found).openNetwork 0 .network 0 ⟨true, id', true⟩ = climbing id id' n m found := by
  have hr : registryReap (climbed id n found) = [⟨id, 0, n⟩] := rfl
  have hx : registryMaxTcPrio [⟨id, 0, n⟩] = n := Nat.max_zero n
  have ha : registryAdd [⟨id, 0, n⟩] ⟨id', 0, m⟩ = ([⟨id, 0, n⟩, ⟨id', 0, m⟩], id') :=
    registryAdd_eq hz (by simpa using hi) (by decide : 1 < registryMax)
  have hl : (climbed id n found).localMax 0 = n := by simp [climbed]
  simp only [Sys.openNetwork, hr, hx, hl, Nat.max_self, chooseTcPrio, ne_eq, not_true, hm, ha,
    Nat.max_eq_right hn, ↓reduceIte, Bool.not_true, Bool.false_eq_true]
  simp [climbed, climbing, climber]

theorem climb_close (hi : id' ≠ id) (hz : id ≠ 0) :
    (climbing id id' n m found).close (climber id n found) true = climbed id' m n := by
  simpa [Sys.close, climbing, climber, climbed, hi] using hz

theorem climb_shared (hi : id' ≠ id) (hz : id' ≠ 0) :
    Shared (climbed id n found) ⟨true, id', true⟩ :=
  ⟨rfl, hz, by simpa [climbed] using hi⟩

theorem climb_step (hm : nextPrio n = m) (hn : n ≤ m) (hi : id' ≠ id) (hz : id' ≠ 0) :
    Step Shared (climbed id n found) (climbing id id' n m found) :=
  climb_open hm hn hi hz ▸ .openNetwork (by simp [climbed]) (climb_shared hi hz) (.inl rfl) (by decide)
    (by decide)

def climbId (k : Nat) : BitVec 64 :=
  if k % 2 = 0 then 1 else 2

theorem climbId_ne (k : Nat) : climbId k ≠ 0 ∧ climbId k ≠ 3 ∧ climbId (k + 1) ≠ climbId k := by
  rcases Nat.mod_two_eq_zero_or_one k with hk | hk
  · have : (k + 1) % 2 = 1 := by omega
    simp [climbId, hk, this]
  · have : (k + 1) % 2 = 0 := by omega
    simp [climbId, hk, this]

theorem climb (k : Nat) (hk : 30001 + k ≤ 0xFFFF) : ∃ found,
    SharedRun .start (climbed (climbId k) (30001 + k) found) := by
  induction k
  case zero => exact ⟨0, climb_first⟩
  case succ k ih =>
    obtain ⟨found, hr⟩ := ih (by omega)
    have ⟨hz, h₃, hi⟩ := climbId_ne k
    have ⟨hz', h₃', _⟩ := climbId_ne (k + 1)
    have hm : nextPrio (30001 + k) = 30001 + (k + 1) := by
      rw [nextPrio, autoPriorityBase, if_pos (by omega)]
      omega
    have ho : Step Shared (climbed (climbId k) (30001 + k) found) _ := climb_step hm (by omega) hi hz'
    have hc : Step Shared (climbing (climbId k) (climbId (k + 1)) (30001 + k) (30001 + (k + 1)) found)
        (climbed (climbId (k + 1)) (30001 + (k + 1)) (30001 + k)) := by
      have he : Shared (climbing (climbId k) (climbId (k + 1)) (30001 + k) (30001 + (k + 1)) found)
          ⟨true, 3, true⟩ := ⟨rfl, by decide, by simpa [climbing] using ⟨h₃.symm, h₃'.symm⟩⟩
      rw [← climb_close hi hz]
      exact .close (.head _) he
    have h₂ : 2 ≤ registryMax := by decide
    exact ⟨_, hr.tail ⟨ho, h₂⟩ |>.tail ⟨hc, Nat.le_of_succ_le h₂⟩⟩

-- At the end two handles share the last TC priority.
theorem zero_not_last : ∃ s, SharedRun .start s ∧ ∃ env, Shared s env ∧ env.openOk ∧
    ∃ g ∈ s.handles, g.IsNetwork ∧ g.tcPrio = 0xFFFF ∧
      (s.openNetwork 0 .network 0 env).handles.getLast?.map (·.tcPrio) = some 0xFFFF := by
  obtain ⟨found, hr⟩ := climb 35534 (by decide)
  have ⟨hz, _, hi⟩ := climbId_ne 35534
  have ⟨hz', _, _⟩ := climbId_ne 35535
  refine ⟨_, hr, ⟨true, climbId 35535, true⟩, climb_shared hi hz', rfl, _, .head _, .inl rfl, rfl, ?_⟩
  rw [climb_open (by decide : nextPrio 65535 = 65535) (by decide) hi hz']
  rfl

theorem zero_after_all_iff_second : ∃ h,
    ((climbed 1 30001 0).openNetwork 7 .network 0 ⟨true, 2, true⟩).handles = [climber 1 30001 0, h] ∧
      30001 < h.tcPrio := by
  have he : Shared (climbed 1 30001 0) ⟨true, 2, true⟩ := climb_shared (by decide) (by decide)
  have ⟨h, hh, _, hi⟩ := zero_after_all_iff climb_first he rfl 7 .network
  refine ⟨h, hh, hi.mpr (fun g hg _ => ?_) (climber 1 30001 0) (.head _) (.inl rfl)⟩
  cases List.mem_singleton.mp hg
  decide

end Registry
