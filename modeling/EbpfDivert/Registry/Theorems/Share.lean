import EbpfDivert.Registry.Theorems.Priority

namespace Registry

variable {s s' : Sys} {priority : Int}
variable {a b h : Opened} {xs ys zs : List Opened} {allow : Sys → OpenEnv → Prop}

-- How a handle has got its TC priority.
structure Chosen (h : Opened) : Prop where
  lowest  : priorityLowest ≤ h.priority
  highest : h.priority ≤ priorityHighest
  tcPrio  : h.tcPrio = chooseTcPrio h.priority h.found

def AllChosen (s : Sys) : Prop :=
  ∀ h ∈ s.handles, h.IsNetwork → Chosen h

theorem Step.chosen (hs : Step allow s s') (hc : AllChosen s) : AllChosen s' := by
  cases hs
  case openNetwork h₁ h₂ =>
    rw [AllChosen, openNetwork_handles]
    split_ifs
    case neg => exact hc
    case pos => exact List.forall_mem_append.mpr ⟨hc, by simpa using fun _ => ⟨h₁, h₂, rfl⟩⟩
  case registerHandle hl =>
    refine List.forall_mem_append.mpr ⟨hc, fun h hm hn => ?_⟩
    cases List.mem_singleton.mp hm
    exact absurd hn (not_or.mpr hl)
  case close => exact fun h hm => hc h (List.mem_of_mem_erase hm)
  case exit  => exact fun h hm => hc h (List.mem_of_mem_filter hm)

theorem Run.chosen (hr : Run .start s) : AllChosen s := by
  induction hr
  case refl       => exact nofun
  case tail hs ih => exact hs.chosen ih

theorem Chosen.tcPrio_eq (hc : Chosen h) (h₀ : h.priority ≠ 0) :
    (h.tcPrio : Int) = autoPriorityBase - h.priority := by
  have := hc.highest
  rw [hc.tcPrio, chooseTcPrio, if_pos h₀, autoPriorityBase]
  rw [priorityHighest] at this
  omega

theorem Chosen.tcPrio_zero (hc : Chosen h) (h₀ : h.priority = 0) : h.tcPrio = nextPrio h.found := by
  rw [hc.tcPrio, chooseTcPrio, if_neg (not_not.mpr h₀)]

-- Handles with different priorities have different TC priorities in the right order.
def Apart (a b : Opened) : Prop :=
  a.priority ≠ b.priority → a.tcPrio ≠ b.tcPrio ∧ (a.priority ≠ 0 → b.priority ≠ 0 →
    (b.priority < a.priority ↔ a.tcPrio < b.tcPrio))

theorem Apart.symm (h : Apart a b) : Apart b a := by
  intro hne
  obtain ⟨ht, hi⟩ := h hne.symm
  refine ⟨ht.symm, fun hb₀ ha₀ => ?_⟩
  have := hi ha₀ hb₀
  omega

def Distinct (s : Sys) : Prop :=
  ∀ a ∈ s.handles, ∀ b ∈ s.handles, a.IsNetwork → b.IsNetwork → Apart a b

-- Two handles share a TC priority if the first one was opened with priority 0 and has got the one that
-- belongs to the priority of the second, or if the second one, opened with priority 0, was not told of
-- the first one and comes right behind what it was told of.
theorem Chosen.apart_iff (hca : Chosen a) (hcb : Chosen b) : Apart a b ↔
    (b.priority ≠ 0 → a.priority = 0 → (a.tcPrio : Int) ≠ autoPriorityBase - b.priority) ∧
    (b.priority = 0 → a.priority ≠ 0 → autoPriorityBase ≤ b.found → a.tcPrio ≠ b.found + 1) := by
  rw [Apart]
  by_cases ha₀ : a.priority = 0
  case pos =>
    by_cases hb₀ : b.priority = 0
    case pos => simp [ha₀, hb₀]
    case neg =>
      have := hcb.tcPrio_eq hb₀
      omega
  case neg =>
    have hta := hca.tcPrio_eq ha₀
    by_cases hb₀ : b.priority = 0
    case neg =>
      have := hcb.tcPrio_eq hb₀
      omega
    case pos =>
      have htb := hcb.tcPrio_zero hb₀
      have hl := hca.lowest
      rw [nextPrio] at htb
      split_ifs at htb with hf <;> simp only [autoPriorityBase, priorityLowest] at * <;> omega

-- The highest TC priority that an open finds, in the registry and in its process.
def Sys.highest (s : Sys) (pid : Nat) (regOk : Bool) : Nat :=
  max (if regOk then registryMaxTcPrio (registryReap s) else 0) (s.localMax pid)

-- No handle with priority 0 has the TC priority that belongs to the priority of an open. If that is 0
-- itself, no handle with another one comes right behind all that the open finds.
def Vacant (s : Sys) (pid : Nat) (priority : Int) (regOk : Bool) : Prop :=
  ∀ g ∈ s.handles, g.IsNetwork →
    (priority ≠ 0 → g.priority = 0 → (g.tcPrio : Int) ≠ autoPriorityBase - priority) ∧
    (priority = 0 → g.priority ≠ 0 → autoPriorityBase ≤ s.highest pid regOk →
      g.tcPrio ≠ s.highest pid regOk + 1)

instance : Decidable h.IsNetwork :=
  inferInstanceAs (Decidable (_ ∨ _))

instance {pid : Nat} {regOk : Bool} : Decidable (Vacant s pid priority regOk) :=
  inferInstanceAs (Decidable (∀ g ∈ s.handles, _))

section Open

variable {pid : Nat} {layer : Wd.Layer} {env : OpenEnv}

theorem found_newHandle : (s.newHandle pid layer priority env).found = s.highest pid env.regOk := by
  rw [Sys.newHandle, Sys.highest]
  cases env.regOk <;> rfl

theorem chosen_newHandle (h₁ : priorityLowest ≤ priority) (h₂ : priority ≤ priorityHighest) :
    Chosen (s.newHandle pid layer priority env) :=
  ⟨h₁, h₂, rfl⟩

-- What one open does.
theorem openNetwork_distinct_iff (hc : AllChosen s) (hd : Distinct s)
    (hl : layer = .network ∨ layer = .networkForward) (h₁ : priorityLowest ≤ priority)
    (h₂ : priority ≤ priorityHighest) (ho : env.openOk) :
    Distinct (s.openNetwork pid layer priority env) ↔ Vacant s pid priority env.regOk := by
  have hn : (s.newHandle pid layer priority env).IsNetwork := hl
  have hcn : Chosen (s.newHandle pid layer priority env) := chosen_newHandle h₁ h₂
  have hi {g : Opened} (hg : g ∈ s.handles) (hgn : g.IsNetwork) :=
    (hc g hg hgn).apart_iff hcn
  simp only [found_newHandle] at hi
  rw [Distinct, openNetwork_handles, if_pos ho]
  constructor
  case mp =>
    intro h g hg hgn
    have hnew := List.mem_append_right s.handles
      (List.mem_singleton_self (s.newHandle pid layer priority env))
    exact (hi hg hgn).mp (h g (List.mem_append_left _ hg) _ hnew hgn hn)
  case mpr =>
    intro hv a ha b hb han hbn
    rcases List.mem_append.mp ha with ha | ha <;> rcases List.mem_append.mp hb with hb | hb
    · exact hd a ha b hb han hbn
    · cases List.mem_singleton.mp hb
      exact (hi ha han).mpr (hv a ha han)
    · cases List.mem_singleton.mp ha
      exact ((hi hb hbn).mpr (hv b hb hbn)).symm
    · cases List.mem_singleton.mp ha
      cases List.mem_singleton.mp hb
      exact fun hne => absurd rfl hne

end Open

-- A step that opens no network handle, or one whose TC priority is vacant.
inductive VacantStep : Sys → Sys → Prop
  | openNetwork {s : Sys} {pid layer priority env} (hp : pid ∉ s.dead)
    (hl : layer = .network ∨ layer = .networkForward) (h₁ : priorityLowest ≤ priority)
    (h₂ : priority ≤ priorityHighest) (hv : env.openOk → Vacant s pid priority env.regOk) :
    VacantStep s (s.openNetwork pid layer priority env)
  | other {s s' : Sys} (hs : Step (fun _ _ => True) s s')
    (hn : ∀ h ∈ s'.handles, h.IsNetwork → h ∈ s.handles) : VacantStep s s'

theorem VacantStep.step (hs : VacantStep s s') : Step (fun _ _ => True) s s' := by
  cases hs
  case openNetwork hp hl h₁ h₂ _ => exact .openNetwork hp trivial hl h₁ h₂
  case other hs _                => exact hs

abbrev VacantRun : Sys → Sys → Prop :=
  Relation.ReflTransGen VacantStep

theorem VacantStep.distinct (hs : VacantStep s s') (hc : AllChosen s) (hd : Distinct s) :
    Distinct s' := by
  cases hs
  case other hn => exact fun a ha b hb han hbn => hd a (hn a ha han) b (hn b hb hbn) han hbn
  case openNetwork env hp hl h₁ h₂ hv =>
    cases ho : env.openOk
    case true  => exact (openNetwork_distinct_iff hc hd hl h₁ h₂ ho).mpr (hv ho)
    case false =>
      rw [Distinct, openNetwork_handles, ho]
      exact hd

theorem VacantRun.run (hr : VacantRun .start s) : Run .start s := by
  induction hr
  case refl       => exact .refl
  case tail hs ih => exact ih.tail hs.step

theorem VacantRun.distinct (hr : VacantRun .start s) : Distinct s := by
  induction hr
  case refl          => exact nofun
  case tail hr hs ih => exact hs.distinct (Run.chosen (VacantRun.run hr)) ih

-- The TC priorities stay distinct and in order as long as every handle is opened with a vacant one. The
-- first open for which that is not so breaks the order.
theorem tcPrio_distinct (hr : Run .start s) :
    (VacantRun .start s → Distinct s) ∧
    ∀ pid layer priority env, Distinct s → (layer = .network ∨ layer = .networkForward) →
      priorityLowest ≤ priority → priority ≤ priorityHighest → env.openOk →
      (Distinct (s.openNetwork pid layer priority env) ↔ Vacant s pid priority env.regOk) :=
  ⟨VacantRun.distinct, fun _ _ _ _ hd hl h₁ h₂ ho => openNetwork_distinct_iff hr.chosen hd hl h₁ h₂ ho⟩

-- As long as the registry is shared, an open with priority 0 finds every handle.
theorem vacant_iff_of_shared {env : OpenEnv} {pid : Nat} (hr : SharedRun .start s) (he : Shared s env) :
    Vacant s pid priority env.regOk ↔ ∀ g ∈ s.handles, g.IsNetwork → priority ≠ 0 → g.priority = 0 →
      (g.tcPrio : Int) ≠ autoPriorityBase - priority := by
  refine ⟨fun h g hg hn => (h g hg hn).left, fun h g hg hn => ⟨h g hg hn, fun _ _ _ hf => ?_⟩⟩
  have : g.tcPrio ≤ (s.newHandle pid .network priority env).found := hr.ok.le_found he hg
  rw [found_newHandle] at this
  omega

-- Opening a handle on the network layer when nothing goes wrong.
def Sys.opened (s : Sys) (priority : Int) (id : BitVec 64) : Sys :=
  s.openNetwork 0 .network priority ⟨true, id, true⟩

theorem step_opened {id : BitVec 64} (hd : 0 ∉ s.dead) (h₁ : priorityLowest ≤ priority)
    (h₂ : priority ≤ priorityHighest) : Step (fun _ _ => True) s (s.opened priority id) :=
  .openNetwork hd trivial (.inl rfl) h₁ h₂

-- Handles with the priorities 5, 0 and -3, and one more with priority 0.
def spread : Sys :=
  ((Sys.start.opened 5 1).opened 0 2).opened (-3) 3

theorem vacantStep_opened {id : BitVec 64} (hd : 0 ∉ s.dead) (h₁ : priorityLowest ≤ priority)
    (h₂ : priority ≤ priorityHighest) (hv : Vacant s 0 priority true) :
    VacantStep s (s.opened priority id) :=
  .openNetwork hd (.inl rfl) h₁ h₂ fun _ => hv

theorem vacantRun_spread : VacantRun .start spread :=
  .tail (.tail (.single <| vacantStep_opened (by decide) (by decide) (by decide) (by decide))
    (vacantStep_opened (by decide) (by decide) (by decide) (by decide)))
    (vacantStep_opened (by decide) (by decide) (by decide) (by decide))

theorem tcPrio_distinct_spread : Distinct spread ∧ Distinct (spread.opened 0 4) ∧
    (spread.opened 0 4).handles.map (·.tcPrio) = [29996, 30001, 30004, 30005] := by
  obtain ⟨hd, hi⟩ := tcPrio_distinct vacantRun_spread.run
  have hd := hd vacantRun_spread
  have hi : Distinct (spread.opened 0 4) ↔ Vacant spread 0 0 true :=
    hi 0 .network 0 _ hd (.inl rfl) (by decide) (by decide) rfl
  exact ⟨hd, hi.mpr (by decide), by decide⟩

-- Two handles with priority 0, and one with priority -1 that gets the TC priority of the second.
def sharing : Sys :=
  ((Sys.start.opened 0 1).opened 0 2).opened (-1) 3

theorem run_sharing : Run .start sharing :=
  .tail (.tail (.single <| step_opened (by decide) (by decide) (by decide))
    (step_opened (by decide) (by decide) (by decide)))
    (step_opened (by decide) (by decide) (by decide))

theorem tcPrio_shared : Run .start sharing ∧ ∃ a b c, sharing.handles = [c, a, b] ∧
    a.priority = 0 ∧ b.priority = -1 ∧ a.tcPrio = 30002 ∧ b.tcPrio = 30002 :=
  ⟨run_sharing, _, _, _, rfl, rfl, rfl, rfl, rfl⟩

end Registry
