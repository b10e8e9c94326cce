import EbpfDivert.Setup.Open

-- What the registry records, and what is reaped.
namespace Setup

theorem foldl_erase {α : Type*} [DecidableEq α] {l : List α} {s : Finset α} :
    l.foldl Finset.erase s = s \ l.toFinset := by
  induction l generalizing s
  case nil => simp
  case cons a l ih =>
    rw [List.foldl_cons, ih]
    ext
    simp
    tauto

variable {procs : Procs} {t : Table} {w : World} {e : RegEntry} {f : TcFilter} {id : BitVec 64}
variable {h : Handle} {self : Process}

-- The filters that are detached when the entry is found dead.
def RegEntry.named (e : RegEntry) : List TcFilter :=
  if e.legacy then detachLegacyEntry e else []

theorem reapEntry_of_alive {r : Reaped} (h : e.Alive procs) : reapEntry procs r (id, e) = r :=
  if_pos h

theorem reapEntry_of_dead {r : Reaped} (h : ¬e.Alive procs)
    (hl : r.dead.length < Registry.registryMax) :
    reapEntry procs r (id, e) = ⟨r.calls ++ e.named, r.dead ++ [id]⟩ := by
  have hr : reapEntry procs r (id, e) = ⟨if e.legacy then _ else _, if _ then _ else _⟩ := if_neg h
  rw [hr, if_pos hl, RegEntry.named]
  split <;> simp

def deadEntries (procs : Procs) (l : List (BitVec 64 × RegEntry)) : List (BitVec 64 × RegEntry) :=
  l.filter fun x => ¬x.2.Alive procs

-- The array of dead entries has room for all of them.
theorem foldl_reapEntry {l : List (BitVec 64 × RegEntry)} {r : Reaped}
    (hl : r.dead.length + l.length ≤ Registry.registryMax) :
    l.foldl (reapEntry procs) r =
      ⟨r.calls ++ (deadEntries procs l).flatMap (·.2.named),
        r.dead ++ (deadEntries procs l).map (·.1)⟩ := by
  induction l generalizing r
  case nil => simp [deadEntries]
  case cons x l ih =>
    rw [List.length_cons] at hl
    rw [List.foldl_cons]
    by_cases ha : x.2.Alive procs
    case pos =>
      rw [reapEntry_of_alive ha, ih (by omega)]
      simp [deadEntries, ha]
    case neg =>
      rw [reapEntry_of_dead ha (by omega), ih (by simp; omega)]
      simp [deadEntries, ha]

theorem reaped_eq : reaped procs t =
    ⟨(deadEntries procs t.toList).flatMap (·.2.named), (deadEntries procs t.toList).map (·.1)⟩ :=
  foldl_reapEntry <| (Nat.zero_add _).trans_le t.length_toList_le

theorem mem_deadEntries :
    (id, e) ∈ deadEntries procs t.toList ↔ t.lookup id = some e ∧ ¬e.Alive procs := by
  simp [deadEntries, BoundedMap.mem_toList]

theorem mem_reaped_calls :
    f ∈ (reaped procs t).calls ↔ ∃ id e, (t.lookup id = some e ∧ ¬e.Alive procs) ∧ f ∈ e.named := by
  simp only [reaped_eq, List.mem_flatMap, Prod.exists, mem_deadEntries]

theorem mem_reaped_dead :
    id ∈ (reaped procs t).dead ↔ ∃ e, t.lookup id = some e ∧ ¬e.Alive procs := by
  simp only [reaped_eq, List.mem_map, Prod.exists, mem_deadEntries, exists_and_right, exists_eq_right]

theorem mem_filters_registryReap :
    f ∈ (registryReap procs true w).filters ↔
      f ∈ w.filters ∧ ¬∃ id e, (w.registry.lookup id = some e ∧ ¬e.Alive procs) ∧ f ∈ e.named := by
  rw [← mem_reaped_calls, ← List.mem_toFinset, ← Finset.mem_sdiff, ← foldl_erase]
  rfl

theorem lookup_registryReap :
    (registryReap procs true w).registry.lookup id =
      (w.registry.lookup id).filter (fun e => e.Alive procs) := by
  have hr : (registryReap procs true w).registry.lookup id =
    if id ∈ (reaped procs w.registry).dead then none else w.registry.lookup id :=
    BoundedMap.lookup_foldl_erase
  simp only [hr, mem_reaped_dead]
  cases w.registry.lookup id
  case none   => simp
  case some e => by_cases ha : e.Alive procs <;> simp [Option.filter, ha]

section Settle

variable {env : RegEnv} {w' : World}

@[simp]
theorem links_settle : (env.settle w).links = w.links := by
  rw [RegEnv.settle, registryReap]
  split_ifs <;> rfl

@[simp]
theorem hbList_settle : (env.settle w).hbList = w.hbList := by
  rw [RegEnv.settle, registryReap]
  split_ifs <;> rfl

@[simp]
theorem localMaxTcPrio_settle : (env.settle w).localMaxTcPrio = w.localMaxTcPrio := by
  rw [RegEnv.settle, registryReap]
  split_ifs <;> rfl

theorem registry_settle_congr (hr : w'.registry = w.registry) :
    (env.settle w').registry = (env.settle w).registry := by
  simp only [RegEnv.settle, registryReap]
  split_ifs <;> simp [hr]

theorem filters_settle_congr (hf : w'.filters = w.filters) (hr : w'.registry = w.registry) :
    (env.settle w').filters = (env.settle w).filters := by
  simp only [RegEnv.settle, registryReap]
  split_ifs <;> simp [hf, hr]

theorem settle_cases :
    env.settle w = w ∨ env.settle w = registryReap env.procs true w := by
  rw [RegEnv.settle]
  split
  case isFalse => exact .inl rfl
  case isTrue =>
    cases env.reapOk
    case false => exact .inl rfl
    case true  => exact .inr rfl

end Settle

-- What `detach_all` and `registry_add` rely on.
structure Attachment.Proper (a : Attachment) : Prop where
  legacy  : a.legacy
  ifindex : a.hook.ifindex = a.ifindex

theorem Attachment.Proper.filter_record {a : Attachment} (h : a.Proper) :
    a.record.filter = a.filter := by
  rw [RegAttach.filter, Attachment.filter, Attachment.record, ← h.ifindex]

theorem recordAll_eq {as : List Attachment} {acc : List RegAttach} (ha : ∀ a ∈ as, a.legacy)
    (hl : acc.length ≤ regMaxAttach) :
    recordAll as acc = acc ++ (as.map (·.record)).take (regMaxAttach - acc.length) := by
  induction as generalizing acc
  case nil => simp [recordAll]
  case cons a as ih =>
    rw [List.forall_mem_cons] at ha
    rw [recordAll, if_pos ha.left]
    split
    case isTrue hn =>
      have hs : regMaxAttach - acc.length = regMaxAttach - (acc ++ [a.record]).length + 1 := by
        simp
        omega
      rw [ih ha.right (by simp; omega), hs]
      simp
    case isFalse hn => simp [show regMaxAttach - acc.length = 0 by omega]

-- Of the filters of a handle only the first ones are recorded.
theorem named_regEntry {env : RegEnv} (hp : ∀ a ∈ h.att, a.Proper) :
    (regEntry self env h).named = h.filters.take regMaxAttach := by
  have hr : recordAll h.att [] = (h.att.map (·.record)).take regMaxAttach :=
    recordAll_eq (fun a ha => (hp a ha).legacy) (Nat.zero_le _)
  have hf : (h.att.map (·.record)).map (·.filter) = h.filters := by
    rw [List.map_map]
    exact List.map_congr_left fun a ha => (hp a ha).filter_record
  have hn : (regEntry self env h).named =
    if !(recordAll h.att []).isEmpty then ((recordAll h.att []).take regMaxAttach).map (·.filter)
    else [] := rfl
  rw [hn, hr, ← hf, List.take_take, Nat.min_self, List.map_take]
  split
  case isTrue => rfl
  case isFalse he =>
    rw [Bool.not_eq_true, Bool.not_eq_false', List.isEmpty_iff] at he
    rw [← List.map_take, he, List.map_nil]

theorem registryAdd_cases {env : RegEnv} {s : Opening} :
    registryAdd self env s = s ∨
    ∃ t, env.id ≠ 0 ∧ s.world.registry.insertNew env.id (regEntry self env s.h) = some t ∧
      registryAdd self env s = { s with world.registry := t, h.regId := env.id } := by
  rw [registryAdd]
  split_ifs with hn
  case pos => exact .inl rfl
  case neg =>
    split
    case h_1      => exact .inl rfl
    case h_2 t ht => exact .inr ⟨t, by simp_all, ht, rfl⟩

end Setup
