import Mathlib.Data.List.AList

-- Maps with room for a limited number of entries.
structure BoundedMap (α : Type*) (β : Type*) (cap : Nat) where
  map     : AList fun _ : α => β
  size_le : map.entries.length ≤ cap

namespace BoundedMap

variable {α β : Type*} {cap : Nat} {m m' : BoundedMap α β cap} {a a' : α} {b b' : β} {as : List α}

def empty : BoundedMap α β cap := ⟨∅, Nat.zero_le _⟩

-- The entries in the order in which they are visited.
def toList (m : BoundedMap α β cap) : List (α × β) :=
  m.map.entries.map fun e => (e.1, e.2)

theorem length_toList_le (m : BoundedMap α β cap) : m.toList.length ≤ cap := by
  rw [toList, List.length_map]
  exact m.size_le

theorem mem_map_iff : a ∈ m.map ↔ a ∈ m.toList.map Prod.fst := by
  rw [toList, List.map_map]
  exact AList.mem_keys

theorem nodup_keys : (m.toList.map Prod.fst).Nodup := by
  rw [toList, List.map_map]
  exact m.map.nodupKeys

variable [DecidableEq α]

def lookup (m : BoundedMap α β cap) (a : α) : Option β :=
  m.map.lookup a

@[simp]
theorem lookup_empty : (empty : BoundedMap α β cap).lookup a = none :=
  AList.lookup_empty a

theorem mem_toList : (a, b) ∈ m.toList ↔ m.lookup a = some b := by
  rw [lookup, ← Option.mem_def, AList.mem_lookup_iff, toList, List.mem_map]
  constructor
  case mp =>
    rintro ⟨⟨_, _⟩, he, h⟩
    cases h
    exact he
  case mpr => exact fun he => ⟨_, he, rfl⟩

-- A map is known by what it holds under each key.
theorem perm_toList {l : List (α × β)} (hn : (l.map Prod.fst).Nodup)
    (h : ∀ a b, (a, b) ∈ l ↔ m.lookup a = some b) : l.Perm m.toList := by
  refine (List.perm_ext_iff_of_nodup hn.of_map nodup_keys.of_map).mpr fun x => ?_
  rw [h, mem_toList]

theorem length_erase_le (m : BoundedMap α β cap) (a : α) : (m.map.erase a).entries.length ≤ cap :=
  Nat.le_trans (List.kerase_sublist a m.map.entries).length_le m.size_le

def erase (m : BoundedMap α β cap) (a : α) : BoundedMap α β cap :=
  ⟨m.map.erase a, m.length_erase_le a⟩

theorem lookup_erase : (m.erase a).lookup a' = if a' = a then none else m.lookup a' := by
  split
  case isTrue h  => exact h ▸ AList.lookup_erase a m.map
  case isFalse h => exact AList.lookup_erase_ne h

theorem perm_toList_erase : (m.toList.filter fun x => x.1 ≠ a).Perm (m.erase a).toList := by
  apply perm_toList
  case hn => exact nodup_keys.sublist (List.filter_sublist.map _)
  case h =>
    intro a' b
    rw [List.mem_filter, mem_toList, lookup_erase]
    split <;> simp [*]

theorem lookup_foldl_erase :
    (as.foldl erase m).lookup a = if a ∈ as then none else m.lookup a := by
  induction as generalizing m
  case nil => simp
  case cons a' as ih =>
    rw [List.foldl_cons, ih, lookup_erase]
    by_cases ha : a = a' <;> simp [ha]

theorem length_insert_le (hl : m.map.entries.length < cap) (ha : a ∉ m.map) (b : β) :
    (m.map.insert a b).entries.length ≤ cap := by
  rw [AList.entries_insert_of_notMem ha]
  exact hl

-- A new entry is refused if there is one under its key, or no room.
def insertNew (m : BoundedMap α β cap) (a : α) (b : β) : Option (BoundedMap α β cap) :=
  if h : m.map.entries.length < cap ∧ a ∉ m.map then some ⟨m.map.insert a b, length_insert_le h.1 h.2 b⟩
  else none

theorem insertNew_eq_some (hl : m.toList.length < cap) (ha : a ∉ m.toList.map Prod.fst) :
    ∃ m', m.insertNew a b = some m' ∧ m'.toList = (a, b) :: m.toList := by
  rw [← mem_map_iff] at ha
  rw [toList, List.length_map] at hl
  refine ⟨_, dif_pos ⟨hl, ha⟩, ?_⟩
  simp only [toList, AList.entries_insert_of_notMem ha, List.map_cons]

theorem insertNew_eq_none (h : ¬(m.toList.length < cap ∧ a ∉ m.toList.map Prod.fst)) :
    m.insertNew a b = none := by
  rw [← mem_map_iff, toList, List.length_map] at h
  exact dif_neg h

theorem lookup_eq_none_of_insertNew (h : m.insertNew a b = some m') : m.lookup a = none := by
  rw [insertNew] at h
  split at h
  case isTrue hn  => exact AList.lookup_eq_none.mpr hn.right
  case isFalse hn => cases h

theorem lookup_insertNew (h : m.insertNew a b = some m') :
    m'.lookup a' = if a' = a then some b else m.lookup a' := by
  rw [insertNew] at h
  split at h
  case isFalse => cases h
  case isTrue =>
    cases h
    split
    case isTrue h  => exact h ▸ AList.lookup_insert m.map
    case isFalse h => exact AList.lookup_insert_ne h

end BoundedMap
