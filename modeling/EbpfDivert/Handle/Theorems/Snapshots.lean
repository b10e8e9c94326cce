import EbpfDivert.Handle.Theorems.Reflect

namespace Handle.Reflect

variable {m : Malloc} {s s' : Poll}

section Keys

variable {α β : Type} [DecidableEq β] {f : α → β} {k : β} {l : List α} {a : α}

abbrev isKey (k : β) (ks : List β) : Bool := k ∈ ks

-- Only one element has a certain key.
theorem filter_key_eq (hn : (l.map f).Nodup) (ha : a ∈ l) : l.filter (f · = f a) = [a] := by
  induction l
  case nil => cases ha
  case cons b l ih =>
    rw [List.map_cons, List.nodup_cons] at hn
    rcases List.mem_cons.mp ha with rfl | ha
    case inl =>
      have : l.filter (f · = f a) = [] :=
        List.filter_eq_nil_iff.mpr fun b hb => by
          simpa using fun h : f b = f a => hn.left (h ▸ List.mem_map_of_mem hb)
      simp [this]
    case inr =>
      have hne : f b ≠ f a := fun h => hn.left (h ▸ List.mem_map_of_mem ha)
      simp [hne, ih hn.right ha]

-- Only its mark is set.
theorem set_findIdx_eq {g : α → Bool} (hn : (l.map f).Nodup) (hk : k ∈ l.map f) :
    (l.map g).set (l.findIdx (f · = k)) true = l.map fun a => g a || f a = k := by
  induction l
  case nil => cases hk
  case cons b l ih =>
    rw [List.map_cons, List.nodup_cons] at hn
    rw [List.findIdx_cons]
    by_cases hb : f b = k
    case pos =>
      have hl : l.map g = l.map fun a => g a || f a = k :=
        List.map_congr_left fun a ha => by
          have : f a ≠ k := fun h => hn.left (hb ▸ h ▸ List.mem_map_of_mem ha)
          simp [this]
      simp [hb, hl]
    case neg =>
      have hk : k ∈ l.map f := (List.mem_cons.mp hk).resolve_left fun h => hb h.symm
      simp [hb, ih hn.right hk]

end Keys

-- The entries of the registry at the time of a poll.
structure Snapshot where
  entries : List (BitVec 64 × RegEntry)
  junk    : BitVec 64 → Nat → Bool
  nodup   : (entries.map Prod.fst).Nodup

namespace Snapshot

abbrev keys (snap : Snapshot) : List (BitVec 64) :=
  snap.entries.map Prod.fst

-- All allocations succeed.
def item (snap : Snapshot) (x : BitVec 64 × RegEntry) : Item :=
  ⟨x.1, some x.2, true, true, true, snap.junk x.1⟩

def record (x : BitVec 64 × RegEntry) : Record :=
  ⟨x.1, x.2.data, x.2.filter.take (if x.2.filterLen ≤ regFilterMax then x.2.filterLen else 0)⟩

theorem recorded_item {snap : Snapshot} {x : BitVec 64 × RegEntry} :
    recorded (snap.item x) x.2 = record x := by
  simp [recorded, item, record, copiedLen]

end Snapshot

-- Entries under new keys.
def fresh (old : List Record) (xs : List (BitVec 64 × RegEntry)) : List (BitVec 64 × RegEntry) :=
  xs.filter fun x => !isKey x.1 (old.map Record.id)

-- The handles and their marks after some entries.
def marks (old : List Record) (xs : List (BitVec 64 × RegEntry)) : List (Record × Bool) :=
  old.map (fun r => (r, isKey r.id (xs.map Prod.fst))) ++
    (fresh old xs).map fun x => (Snapshot.record x, true)

section Scan

variable {snap : Snapshot} {old : List Record} {xs : List (BitVec 64 × RegEntry)} {x : BitVec 64 × RegEntry}

theorem fresh_new (hx : x.1 ∉ old.map Record.id) : fresh old [x] = [x] := by
  rw [fresh, List.filter_cons_of_pos (by simpa using hx), List.filter_nil]

theorem fresh_known (hx : x.1 ∈ old.map Record.id) : fresh old [x] = [] := by
  rw [fresh, List.filter_cons_of_neg (by simpa using hx), List.filter_nil]

theorem fresh_append {ys : List (BitVec 64 × RegEntry)} :
    fresh old (xs ++ ys) = fresh old xs ++ fresh old ys :=
  List.filter_append ..

theorem marks_concat_new (hx : x.1 ∉ old.map Record.id) :
    marks old (xs ++ [x]) = marks old xs ++ [(Snapshot.record x, true)] := by
  have ho : old.map (fun r => (r, isKey r.id ((xs ++ [x]).map Prod.fst))) =
      old.map fun r => (r, isKey r.id (xs.map Prod.fst)) :=
    List.map_congr_left fun r hr => by
      have : r.id ≠ x.1 := fun h => hx (h ▸ List.mem_map_of_mem hr)
      simp only [isKey, List.map_append, List.mem_append, List.map_singleton, List.mem_singleton,
        this, or_false]
  rw [marks, ho, fresh_append, fresh_new hx, List.map_append, ← List.append_assoc]
  rfl

theorem marks_concat_known (hx : x.1 ∈ old.map Record.id) : marks old (xs ++ [x]) =
    old.map (fun r => (r, isKey r.id (xs.map Prod.fst) || r.id = x.1)) ++
      (fresh old xs).map fun x => (Snapshot.record x, true) := by
  rw [marks, fresh_append, fresh_known hx, List.append_nil]
  congr 1
  refine List.map_congr_left fun r _ => ?_
  simp only [isKey, List.map_append, List.mem_append, List.map_singleton, List.mem_singleton,
    Bool.decide_or]

theorem map_fst_marks : (marks old xs).map Prod.fst = old ++ (fresh old xs).map Snapshot.record := by
  simp [marks, Function.comp_def]

theorem map_snd_marks : (marks old xs).map Prod.snd =
    old.map (fun r => isKey r.id (xs.map Prod.fst)) ++ (fresh old xs).map fun _ => true := by
  rw [marks, List.map_append, List.map_map, List.map_map]
  rfl

theorem index_eq (item : Item) (s : Shared) : index s.live item = s.view.findIdx (·.id = item.key) := by
  rw [index, Shared.view, List.findIdx_map]
  rfl

theorem index_lt_iff_mem (item : Item) (h : s.Ok) :
    index s.live item < s.nseen ↔ item.key ∈ s.view.map Record.id := by
  rw [← h.length_view, index_eq, List.findIdx_lt_length]
  simp

theorem appends_item_iff {s : Shared} :
    appends s.live (snap.item x) ↔ x.1 ∉ s.view.map Record.id := by
  have hv : s.view.map Record.id = s.live.map Seen.id := by
    rw [Shared.view, List.map_map]
    rfl
  simp only [hv, appends, Bool.and_eq_true, List.all_eq_true, decide_eq_true_eq, List.mem_map, not_exists,
    not_and]
  simp [Snapshot.item]

theorem mem_marks {k : BitVec 64} (h : Marked s (marks old xs)) :
    k ∈ s.view.map Record.id ↔ k ∈ old.map Record.id ∨ k ∈ xs.map Prod.fst := by
  have hf : ((fresh old xs).map Snapshot.record).map Record.id = (fresh old xs).map Prod.fst := by
    rw [List.map_map]
    rfl
  rw [h.view, map_fst_marks, List.map_append, List.mem_append, hf]
  simp only [fresh, List.mem_map, List.mem_filter]
  grind

-- A handle that is known already.
theorem Marked.scanItem_known (m : Malloc) (snap : Snapshot) (h : Marked s (marks old xs))
    (ho : (old.map Record.id).Nodup)
    (hk : x.1 ∈ old.map Record.id) (hl : s.nseen < s.alive.length) :
    ∃ s', scanItem m s (snap.item x) = some s' ∧ Marked s' (marks old (xs ++ [x])) ∧
      s'.nseen < s'.alive.length ∧ s'.calls = s.calls := by
  have hm := (mem_marks (k := x.1) h).mpr (.inl hk)
  have hi := (index_lt_iff_mem (snap.item x) h.ok).mpr hm
  have hs := scanItem_scanned m (snap.item x) h.ok
  generalize scanItem m s (snap.item x) = out at hs
  cases hs
  case skipped hn _ => exact absurd hi (hn rfl)
  case appended ha _ => exact absurd hm <| appends_item_iff.mp ha
  case known =>
    rw [store_eq_some _ (hi.trans hl)]
    refine ⟨_, rfl, ⟨h.ok, ?_, ?_⟩, by simpa using hl, rfl⟩
    case refine_1 =>
      rw [map_fst_marks, fresh_append, fresh_known hk, List.append_nil, ← map_fst_marks]
      exact h.view
    case refine_2 =>
      have hidx : index s.live (snap.item x) = old.findIdx (·.id = x.1) := by
        have he : old.findIdx (·.id = x.1) < old.length := by
          rw [List.findIdx_lt_length]
          simpa using hk
        have hv := index_eq (snap.item x) s.toShared
        rw [h.view, map_fst_marks, List.findIdx_append] at hv
        exact hv.trans (if_pos he)
      have hlt : index s.live (snap.item x) < (old.map fun r => isKey r.id (xs.map Prod.fst)).length := by
        rw [hidx, List.length_map, List.findIdx_lt_length]
        simpa using hk
      rw [List.take_set, h.alive, map_snd_marks, List.set_append_left _ _ hlt, hidx, set_findIdx_eq ho hk,
        marks_concat_known hk, List.map_append, List.map_map, List.map_map]
      rfl

-- An entry of the registry.
theorem Marked.scanItem_eq (m : Malloc) (snap : Snapshot) (h : Marked s (marks old xs))
    (ho : (old.map Record.id).Nodup)
    (hx : x.1 ∉ xs.map Prod.fst) (hl : s.nseen < s.alive.length) :
    ∃ s', scanItem m s (snap.item x) = some s' ∧ Marked s' (marks old (xs ++ [x])) ∧
      s'.nseen < s'.alive.length ∧
      s'.calls = s.calls ++ (fresh old [x]).map fun x => (Snapshot.record x).call eventReflectOpen := by
  by_cases hk : x.1 ∈ old.map Record.id
  case pos =>
    have ⟨s', hs', hm, hl', hc⟩ := h.scanItem_known m snap ho hk hl
    exact ⟨s', hs', hm, hl', by simp [hc, fresh_known hk]⟩
  case neg =>
    have hn : x.1 ∉ s.view.map Record.id := by
      rw [mem_marks h]
      exact not_or.mpr ⟨hk, hx⟩
    have hs := scanItem_scanned m (snap.item x) h.ok
    generalize scanItem m s (snap.item x) = out at hs
    cases hs
    case skipped ha _ _ => exact absurd (appends_item_iff.mpr hn) ha
    case known hi       => exact absurd ((index_lt_iff_mem _ h.ok).mp hi) hn
    case appended s' e he _ hs =>
      cases he
      refine ⟨s', rfl, ⟨hs.ok, ?_, ?_⟩, by rw [hs.nseen, hs.alive]; simp, ?_⟩
      case refine_1 =>
        rw [hs.view, h.view, marks_concat_new hk, List.map_append, Snapshot.recorded_item]
        rfl
      case refine_2 =>
        rw [hs.nseen, hs.alive, take_succ_set (by simp), take_realloc (by omega) hl.le, h.alive,
          marks_concat_new hk, List.map_append]
        rfl
      case refine_3 =>
        rw [hs.calls, fresh_new hk, Snapshot.recorded_item]
        rfl

theorem Marked.scan_eq (m : Malloc) (snap : Snapshot) (ys : List (BitVec 64 × RegEntry))
    (h : Marked s (marks old xs)) (ho : (old.map Record.id).Nodup) (hx : ((xs ++ ys).map Prod.fst).Nodup)
    (hl : s.nseen < s.alive.length) :
    ∃ s', (ys.map snap.item).foldlM (scanItem m) s = some s' ∧ Marked s' (marks old (xs ++ ys)) ∧
      s'.calls = s.calls ++ (fresh old ys).map fun x => (Snapshot.record x).call eventReflectOpen := by
  induction ys generalizing s xs
  case nil => exact ⟨s, rfl, by simpa using h, by simp [fresh]⟩
  case cons y ys ih =>
    have hy : y.1 ∉ xs.map Prod.fst := by
      rw [List.map_append, List.nodup_append] at hx
      exact fun hm => hx.right.right _ hm _ (by simp) rfl
    have ⟨s₁, hs₁, hm₁, hl₁, hc₁⟩ := h.scanItem_eq m snap ho hy hl
    have ⟨s', hs', hm', hc'⟩ := ih hm₁ (by simpa using hx) hl₁
    rw [List.append_assoc, List.singleton_append] at hm'
    refine ⟨s', ?_, hm', ?_⟩
    case refine_1 => rw [List.map_cons, List.foldlM_cons, hs₁]; exact hs'
    case refine_2 => rw [hc', hc₁, List.append_assoc, ← List.map_append, ← fresh_append]; rfl

end Scan

section Polls

variable {snap : Snapshot} {s : Shared}

-- The handles that are new, and those that have disappeared.
def Snapshot.opens (snap : Snapshot) (old : List Record) : List Record :=
  (fresh old snap.entries).map Snapshot.record

def Snapshot.closes (snap : Snapshot) (old : List Record) : List Record :=
  old.filter fun r => !isKey r.id snap.keys

def Snapshot.stays (snap : Snapshot) (old : List Record) : List Record :=
  old.filter fun r => isKey r.id snap.keys

theorem filter_marks (snap : Snapshot) (old : List Record) :
    ((marks old snap.entries).filter (!·.2)).map Prod.fst =
    snap.closes old ∧ ((marks old snap.entries).filter (!!·.2)).map Prod.fst =
      snap.stays old ++ snap.opens old := by
  constructor <;>
    simp [marks, List.filter_map, Function.comp_def, Snapshot.closes, Snapshot.stays, Snapshot.opens]

-- A poll by one thread: what it reports and what it knows afterwards.
theorem poll_snapshot (m : Malloc) (snap : Snapshot) (h : s.Ok) (hn : (s.view.map Record.id).Nodup) :
    ∃ s', ∃ closed : List Record, poll m s.nseen (snap.entries.map snap.item) s = some (s',
        (snap.opens s.view).map (·.call eventReflectOpen) ++ closed.map (·.call eventReflectClose)) ∧
      s'.Ok ∧ closed.Perm (snap.closes s.view) ∧
      s'.view.Perm (snap.stays s.view ++ snap.opens s.view) := by
  have hm : Marked ⟨s, .replicate (s.nseen + 1) false, []⟩ (marks s.view []) := by
    refine ⟨h, by simp [marks, fresh, Function.comp_def], ?_⟩
    rw [map_snd_marks]
    simp [fresh, isKey, h.length_view, List.take_replicate]
  have ⟨s₁, hs₁, hm₁, hc₁⟩ := hm.scan_eq m snap snap.entries hn
    (by simpa using snap.nodup) (by simp)
  rw [List.nil_append] at hm₁
  have ⟨s₂, hs₂, hm₂, hc₂⟩ := hm₁.removeDead_all
  have ⟨hg, hk⟩ := Sweep.sweepAll_perm (p := (!·.2)) (l := marks s.view snap.entries)
  have hf := filter_marks snap s.view
  refine ⟨s₂.toShared, (Sweep.sweepAll (!·.2) (marks s.view snap.entries)).1.map Prod.fst, ?_,
    hm₂.ok, ?_, ?_⟩
  case refine_1 =>
    rw [poll, hs₁, Option.bind_eq_bind, Option.bind_some, hs₂, Option.bind_some, hc₂, hc₁]
    simp [Snapshot.opens, Function.comp_def]
  case refine_2 => exact hf.left ▸ hg.map _
  case refine_3 => exact hm₂.view ▸ hf.right ▸ hk.map _

theorem map_id_opens {old : List Record} :
    (snap.opens old).map Record.id = (fresh old snap.entries).map Prod.fst := by
  rw [Snapshot.opens, List.map_map]
  rfl

theorem mem_map_opens {old : List Record} {k : BitVec 64} :
    k ∈ (snap.opens old).map Record.id ↔ k ∈ snap.keys ∧ k ∉ old.map Record.id := by
  rw [map_id_opens]
  simp only [fresh, List.mem_map, List.mem_filter]
  grind

theorem nodup_opens {old : List Record} : ((snap.opens old).map Record.id).Nodup :=
  map_id_opens ▸ snap.nodup.sublist (List.filter_sublist.map _)

-- The handles that are known afterwards are those of the registry.
theorem ids_perm {old : List Record} (hn : (old.map Record.id).Nodup) :
    ((snap.stays old ++ snap.opens old).map Record.id).Perm snap.keys := by
  rw [List.map_append]
  have hs : ((snap.stays old).map Record.id).Sublist (old.map Record.id) := List.filter_sublist.map _
  refine (List.perm_ext_iff_of_nodup ?_ snap.nodup).mpr fun k => ?_
  case refine_1 =>
    refine List.nodup_append.mpr ⟨hn.sublist hs, nodup_opens, fun a ha b hb hab => ?_⟩
    exact (mem_map_opens.mp hb).right <| hab ▸ hs.subset ha
  case refine_2 =>
    rw [List.mem_append, mem_map_opens]
    simp only [Snapshot.stays, List.mem_map, List.mem_filter, decide_eq_true_eq]
    grind

end Polls

-- A handle is reported as open and then, with the same data, as closed, before it is reported again.
-- The record is that of a handle that is open at the end.
inductive Alternating : List Call → Option Record → Prop
  | nil : Alternating [] none
  | opened {cs : List Call} {r : Record} (h : Alternating cs none) :
    Alternating (cs ++ [r.call eventReflectOpen]) (some r)
  | closed {cs : List Call} {r : Record} (h : Alternating cs (some r)) :
    Alternating (cs ++ [r.call eventReflectClose]) none

-- The polls of one thread, the last one first.
def polls (m : Malloc) : List Snapshot → Option (Shared × List Call)
  | []            => some (opened, [])
  | snap :: snaps => do
    let (s, history) ← polls m snaps
    let (s, calls) ← poll m s.nseen (snap.entries.map snap.item) s
    some (s, history ++ calls)

-- What is known after some polls.
structure Reported (s : Shared) (history : List Call) : Prop where
  ok    : s.Ok
  nodup : (s.view.map Record.id).Nodup
  calls : ∀ id, ∃ last, Alternating (history.filter (·.id = id)) last ∧
    ∀ r, last = some r ↔ r ∈ s.view ∧ r.id = id

section History

variable {snap : Snapshot} {s s' : Shared} {history : List Call} {id : BitVec 64} {closed rs : List Record}

theorem reported_opened : Reported opened [] :=
  ⟨Shared.ok_opened, by simp [Shared.view, Shared.live, opened],
    fun _ => ⟨none, .nil, by simp [Shared.view, Shared.live, opened]⟩⟩

theorem filter_calls {event : BitVec 8} : (rs.map (·.call event)).filter (·.id = id) =
    (rs.filter (·.id = id)).map (·.call event) := by
  rw [List.filter_map]
  rfl

theorem filter_id_eq_nil (h : id ∉ rs.map Record.id) : rs.filter (·.id = id) = [] :=
  List.filter_eq_nil_iff.mpr fun r hr hid => h <| List.mem_map.mpr ⟨r, hr, by simpa using hid⟩

section Polled

variable {view view' : List Record} {r : Record}

-- What a poll reports of one handle, and the record by which the handle is known afterwards.
structure Polled (snap : Snapshot) (view view' closed : List Record) (id : BitVec 64)
    (opens closes : List Record) (last : Option Record) : Prop where
  opens  : (snap.opens view).filter (·.id = id) = opens
  closes : closed.filter (·.id = id) = closes
  known  : ∀ r, last = some r ↔ r ∈ view' ∧ r.id = id

variable (hn : (view.map Record.id).Nodup) (hc : closed.Perm (snap.closes view))
variable (hv : view'.Perm (snap.stays view ++ snap.opens view))

include hv in
theorem mem_polled : r ∈ view' ↔ r ∈ view ∧ r.id ∈ snap.keys ∨ r ∈ snap.opens view := by
  rw [hv.mem_iff, List.mem_append, Snapshot.stays, List.mem_filter, decide_eq_true_eq]

include hn hv in
theorem keys_polled : (view'.map Record.id).Perm snap.keys :=
  (hv.map Record.id).trans (ids_perm hn)

include hc in
theorem mem_closed (hr : r ∈ closed) : r ∈ view ∧ r.id ∉ snap.keys := by
  simpa [Snapshot.closes] using hc.subset hr

include hc in
theorem not_mem_map_closed (h : id ∉ view.map Record.id ∨ id ∈ snap.keys) :
    id ∉ closed.map Record.id := by
  intro hm
  obtain ⟨r, hr, rfl⟩ := List.mem_map.mp hm
  have ⟨hv, hk⟩ := mem_closed hc hr
  exact h.elim (fun hn => hn (List.mem_map_of_mem hv)) hk

include hn hv in
theorem not_known_polled (hk : id ∉ snap.keys) (r : Record) : none = some r ↔ r ∈ view' ∧ r.id = id := by
  refine ⟨nofun, fun ⟨hr, hid⟩ => absurd ?_ hk⟩
  exact hid ▸ (keys_polled hn hv).subset (List.mem_map_of_mem hr)

theorem filter_opens_eq_nil (h : id ∈ view.map Record.id ∨ id ∉ snap.keys) :
    (snap.opens view).filter (·.id = id) = [] :=
  filter_id_eq_nil fun ho =>
    h.elim (mem_map_opens.mp ho).right fun hk => hk (mem_map_opens.mp ho).left

include hn hc hv in
theorem polled_stays (hr : r ∈ view) (hk : r.id ∈ snap.keys) :
    Polled snap view view' closed r.id [] [] (some r) := by
  refine ⟨filter_opens_eq_nil (.inl (List.mem_map_of_mem hr)),
    filter_id_eq_nil (not_mem_map_closed hc (.inr hk)), fun r' => ⟨?_, ?_⟩⟩
  case refine_1 =>
    rintro ⟨⟩
    exact ⟨(mem_polled hv).mpr (.inl ⟨hr, hk⟩), rfl⟩
  case refine_2 =>
    intro ⟨hr', hid⟩
    have ho : r' ∉ snap.opens view := fun ho =>
      (mem_map_opens.mp (List.mem_map_of_mem ho)).right (hid ▸ List.mem_map_of_mem hr)
    have hm := ((mem_polled hv).mp hr').resolve_right ho
    exact congrArg some <| List.inj_on_of_nodup_map hn hr hm.left hid.symm

include hn hc hv in
theorem polled_closes (hr : r ∈ view) (hk : r.id ∉ snap.keys) :
    Polled snap view view' closed r.id [] [r] none := by
  have hf : (snap.closes view).filter (·.id = r.id) = [r] :=
    filter_key_eq (hn.sublist (List.filter_sublist.map _)) (by simp [Snapshot.closes, hr, hk])
  exact ⟨filter_opens_eq_nil (.inr hk), List.perm_singleton.mp <| hf ▸ hc.filter _,
    not_known_polled hn hv hk⟩

include hc hv in
theorem polled_opens (hu : id ∉ view.map Record.id) (hk : id ∈ snap.keys) :
    ∃ r, Polled snap view view' closed id [r] [] (some r) := by
  obtain ⟨r, hr, rfl⟩ := List.mem_map.mp <| mem_map_opens.mpr ⟨hk, hu⟩
  refine ⟨r, filter_key_eq nodup_opens hr, filter_id_eq_nil (not_mem_map_closed hc (.inl hu)),
    fun r' => ⟨?_, ?_⟩⟩
  case refine_1 =>
    rintro ⟨⟩
    exact ⟨(mem_polled hv).mpr (.inr hr), rfl⟩
  case refine_2 =>
    intro ⟨hr', hid⟩
    have hm := ((mem_polled hv).mp hr').resolve_left fun h =>
      hu <| hid ▸ List.mem_map_of_mem h.left
    exact congrArg some <| List.inj_on_of_nodup_map nodup_opens hr hm hid.symm

include hn hc hv in
theorem polled_absent (hu : id ∉ view.map Record.id) (hk : id ∉ snap.keys) :
    Polled snap view view' closed id [] [] none :=
  ⟨filter_opens_eq_nil (.inr hk), filter_id_eq_nil (not_mem_map_closed hc (.inl hu)),
    not_known_polled hn hv hk⟩

end Polled

theorem Reported.step (h : Reported s history) (hok : s'.Ok) (hc : closed.Perm (snap.closes s.view))
    (hv : s'.view.Perm (snap.stays s.view ++ snap.opens s.view)) :
    Reported s' (history ++ ((snap.opens s.view).map (·.call eventReflectOpen) ++
      closed.map (·.call eventReflectClose))) := by
  refine ⟨hok, (keys_polled h.nodup hv).nodup_iff.mpr snap.nodup, fun id => ?_⟩
  obtain ⟨last, ha, hl⟩ := h.calls id
  rw [List.filter_append, List.filter_append, filter_calls, filter_calls]
  cases last
  case some r =>
    obtain ⟨hr, rfl⟩ := (hl r).mp rfl
    by_cases hk : r.id ∈ snap.keys
    case pos =>
      have hp := polled_stays h.nodup hc hv hr hk
      exact ⟨_, by simpa [hp.opens, hp.closes] using ha, hp.known⟩
    case neg =>
      have hp := polled_closes h.nodup hc hv hr hk
      exact ⟨_, by simpa [hp.opens, hp.closes] using ha.closed, hp.known⟩
  case none =>
    have hu : id ∉ s.view.map Record.id := by
      intro h
      obtain ⟨r, hr, hid⟩ := List.mem_map.mp h
      exact nomatch (hl r).mpr ⟨hr, hid⟩
    by_cases hk : id ∈ snap.keys
    case pos =>
      have ⟨r, hp⟩ := polled_opens hc hv hu hk
      exact ⟨_, by simpa [hp.opens, hp.closes] using ha.opened, hp.known⟩
    case neg =>
      have hp := polled_absent h.nodup hc hv hu hk
      exact ⟨_, by simpa [hp.opens, hp.closes] using ha, hp.known⟩

theorem polls_reported (m : Malloc) (snaps : List Snapshot) :
    ∃ s history, polls m snaps = some (s, history) ∧ Reported s history := by
  induction snaps
  case nil => exact ⟨_, _, rfl, reported_opened⟩
  case cons snap snaps ih =>
    have ⟨s, history, hs, hr⟩ := ih
    have ⟨s', closed, hp, hok, hc, hv⟩ := poll_snapshot m snap hr.ok hr.nodup
    exact ⟨s', _, by simp [polls, hs, hp], hr.step hok hc hv⟩

end History

-- Every poll of one thread reports exactly what has changed in the registry since the last one.
theorem reflect_reports_changes (m : Malloc) (snaps : List Snapshot) (snap : Snapshot) :
    ∃ s history s', ∃ closed : List Record, polls m snaps = some (s, history) ∧
      poll m s.nseen (snap.entries.map snap.item) s = some (s',
        (snap.opens s.view).map (·.call eventReflectOpen) ++ closed.map (·.call eventReflectClose)) ∧
      closed.Perm (snap.closes s.view) ∧ (s'.view.map Record.id).Perm snap.keys ∧ snap.keys.Nodup ∧
      ∀ id, ∃ last, Alternating (history.filter (·.id = id)) last ∧
        ∀ r, last = some r ↔ r ∈ s.view ∧ r.id = id := by
  have ⟨s, history, hs, hr⟩ := polls_reported m snaps
  have ⟨s', closed, hp, _, hc, hv⟩ := poll_snapshot m snap hr.ok hr.nodup
  exact ⟨s, history, s', closed, hs, hp, hc, (hv.map _).trans (ids_perm hr.nodup), snap.nodup, hr.calls⟩

end Handle.Reflect
