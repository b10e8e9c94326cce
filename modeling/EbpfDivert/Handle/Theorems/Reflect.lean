import EbpfDivert.Handle.Reflect
import EbpfDivert.Primitives.Sweep

namespace Handle.Reflect

variable {m : Malloc} {heap : Heap} {r : Seen} {s s' : Poll} {item : Item} {e : RegEntry} {i p : Nat}

section Cells

variable {α : Type} {cells : List α} {junk : Nat → α} {a : α} {n : Nat}

@[simp]
theorem length_realloc : (realloc n junk cells).length = n := by
  simp [realloc]

-- What has been stored survives.
theorem take_realloc {k : Nat} (hk : k ≤ n) (hl : k ≤ cells.length) :
    (realloc n junk cells).take k = cells.take k := by
  refine List.ext_getElem? fun i => ?_
  by_cases hi : i < k
  case pos =>
    have : i < cells.length := by omega
    simp [realloc, hi, show i < n by omega, this]
  case neg => simp [hi]

theorem store_eq_some (a : α) (hi : i < cells.length) : store cells i a = some (cells.set i a) :=
  if_pos hi

theorem take_succ_set (hi : n < cells.length) : (cells.set n a).take (n + 1) = cells.take n ++ [a] := by
  rw [List.take_add_one, List.take_set_of_le le_rfl]
  simp [hi]

end Cells

-- A handle as it has been reported.
structure Record where
  id     : BitVec 64
  data   : Wd.DataReflect
  filter : Bytes

def Record.call (event : BitVec 8) (r : Record) : Call :=
  ⟨r.id, r.data, r.filter, event⟩

def recordOf (heap : Heap) (r : Seen) : Record :=
  ⟨r.id, r.data, (content heap r).getD []⟩

theorem content_insert {b : Bytes} (hp : p ∉ r.filter) : content (heap.insert p b) r = content heap r := by
  rw [content, content]
  cases hr : r.filter
  case none => rfl
  case some q =>
    have hn : q ≠ p := fun h => hp (h ▸ hr)
    simp only [AList.lookup_insert_ne hn]

theorem content_erase (hp : p ∉ r.filter) : content (heap.erase p) r = content heap r := by
  rw [content, content]
  cases hr : r.filter
  case none => rfl
  case some q =>
    have hn : q ≠ p := fun h => hp (h ▸ hr)
    simp only [AList.lookup_erase_ne hn]

theorem mem_heap_of_content (h : (content heap r).isSome) (hp : r.filter = some p) : p ∈ heap := by
  rw [content, hp] at h
  refine AList.lookup_isSome.mp ?_
  cases hl : heap.lookup p
  case none   => simp [hl] at h
  case some _ => rfl

-- Filters that are different blocks.
def Apart (r r' : Seen) : Prop :=
  ∀ p ∈ r.filter, p ∉ r'.filter

theorem Apart.symm {r' : Seen} (h : Apart r r') : Apart r' r :=
  fun p hp hp' => h p hp' hp

theorem release_eq (h : (content heap r).isSome) : ∃ heap', release r heap = some heap' ∧
    ∀ r', Apart r r' → content heap' r' = content heap r' := by
  cases hr : r.filter
  case none => exact ⟨heap, by simp [release, hr], fun _ _ => rfl⟩
  case some p =>
    have hp := mem_heap_of_content h hr
    exact ⟨heap.erase p, by simp [release, hr, hp], fun r' ha => content_erase <| ha p hr⟩

namespace Shared

def live (s : Shared) : List Seen :=
  s.seen.take s.nseen

def view (s : Shared) : List Record :=
  s.live.map (recordOf s.heap)

-- The cells in use are allocated and their filters are blocks of their own.
structure Ok (s : Shared) : Prop where
  size     : s.nseen ≤ s.seen.length
  stored   : ∀ r ∈ s.live, (content s.heap r).isSome
  distinct : s.live.Pairwise Apart

theorem ok_opened : opened.Ok := ⟨le_rfl, by simp [live, opened], by simp [live, opened]⟩

variable {s : Shared}

theorem Ok.congr {s' : Shared} (h : s.Ok) (hl : s'.live = s.live) (hh : s'.heap = s.heap)
    (hs : s'.nseen ≤ s'.seen.length) : s'.Ok :=
  ⟨hs, hl ▸ hh ▸ h.stored, hl ▸ h.distinct⟩

theorem Ok.length_live (h : s.Ok) : s.live.length = s.nseen := by
  simp [live, h.size]

theorem Ok.length_view (h : s.Ok) : s.view.length = s.nseen := by
  simp [view, h.length_live]

end Shared

theorem find_eq {key : BitVec 64} {seen : List Seen} {left : Nat} (h : i + left ≤ seen.length) :
    find key seen left i = some (i + ((seen.drop i).take left).findIdx (·.id = key)) := by
  induction left generalizing i
  case zero => simp [find]
  case succ left ih =>
    have hi : i < seen.length := by omega
    rw [find, List.getElem?_eq_getElem hi, Option.bind_eq_bind, Option.bind_some, ih (by omega),
      List.drop_eq_getElem_cons hi, List.take_succ_cons, List.findIdx_cons]
    by_cases hk : seen[i].id = key
    case pos => simp [hk]
    case neg =>
      simp [hk]
      omega

theorem find_live (h : s.Ok) {key : BitVec 64} :
    find key s.seen s.nseen 0 = some (s.live.findIdx (·.id = key)) := by
  rw [find_eq (by simpa using h.size), List.drop_zero, Nat.zero_add]
  rfl

-- The length of the filter that is copied.
def copiedLen (item : Item) (e : RegEntry) : Nat :=
  if item.filterOk ∧ e.filterLen ≤ regFilterMax then e.filterLen else 0

-- What is recorded of a new handle.
def recorded (item : Item) (e : RegEntry) : Record :=
  ⟨item.key, e.data, e.filter.take (copiedLen item e)⟩

-- A new handle has a block of its own and leaves the others alone.
structure Recorded (heap heap' : Heap) (r : Seen) (rec : Record) : Prop where
  stored : (content heap' r).isSome
  record : recordOf heap' r = rec
  fresh  : ∀ p ∈ r.filter, p ∉ heap
  frame  : ∀ r' : Seen, (content heap r').isSome → content heap' r' = content heap r'

theorem record_recorded (m : Malloc) (item : Item) (e : RegEntry) (heap : Heap) :
    Recorded heap (record m item e heap).1 (record m item e heap).2 (recorded item e) := by
  by_cases hf : item.filterOk
  case neg =>
    have hc : content heap ⟨item.key, e.data, 0, none⟩ = some [] := rfl
    have hr : recorded item e = ⟨item.key, e.data, []⟩ := by simp [recorded, copiedLen, hf]
    simp only [record, hf, hr]
    exact ⟨by simp [hc], by simp [recordOf, hc], nofun, fun _ _ => rfl⟩
  case pos =>
    have hl : copiedLen item e = if e.filterLen ≤ regFilterMax then e.filterLen else 0 := by
      simp [copiedLen, hf]
    have hb : (e.filter.take (copiedLen item e)).length = copiedLen item e := by
      rw [List.length_take, e.filter_len, hl]
      split_ifs <;> omega
    have hc : content (heap.insert (m.pick heap) (e.filter.take (copiedLen item e)))
        ⟨item.key, e.data, copiedLen item e, some (m.pick heap)⟩ =
          some (e.filter.take (copiedLen item e)) := by
      simp [content, hb, List.take_take]
    simp only [record, hf, if_true, ← hl]
    refine ⟨by simp [hc], by simp [recordOf, hc, recorded], ?_, fun r' hr' => ?_⟩
    case refine_1 => simpa using m.fresh heap
    case refine_2 => exact content_insert fun hp => m.fresh heap <| mem_heap_of_content hr' hp

-- A handle joins those that are known.
theorem Shared.Ok.concat {s s' : Shared} {rec : Record} (h : s.Ok) (hs : s'.nseen ≤ s'.seen.length)
    (hl : s'.live = s.live ++ [r]) (hr : Recorded s.heap s'.heap r rec) :
    s'.Ok ∧ s'.view = s.view ++ [rec] := by
  have hframe {r'} (hm : r' ∈ s.live) := hr.frame r' (h.stored r' hm)
  constructor
  case left =>
    refine ⟨hs, fun r' hm => ?_, ?_⟩
    case refine_1 =>
      rw [hl] at hm
      rcases List.mem_append.mp hm with hm | hm
      case inl => rw [hframe hm]; exact h.stored r' hm
      case inr => rw [List.mem_singleton.mp hm]; exact hr.stored
    case refine_2 =>
      rw [hl]
      refine List.pairwise_append.mpr ⟨h.distinct, by simp, fun r' hm r₁ hr₁ p hp hp' => ?_⟩
      rw [List.mem_singleton.mp hr₁] at hp'
      exact hr.fresh p hp' <| mem_heap_of_content (h.stored r' hm) hp
  case right =>
    have hv : s.live.map (recordOf s'.heap) = s.view :=
      List.map_congr_left fun r' hm => by rw [recordOf, recordOf, hframe hm]
    rw [view, hl, List.map_append, hv, List.map_singleton, hr.record]

-- A handle leaves and the last one takes its place.
theorem Shared.Ok.fill {s s' : Shared} {livePre liveSuf : List Seen} (h : s.Ok)
    (hs : s'.nseen ≤ s'.seen.length) (hl : s.live = livePre ++ r :: liveSuf)
    (hl' : s'.live = livePre ++ Sweep.front liveSuf)
    (hf : ∀ r', Apart r r' → content s'.heap r' = content s.heap r') :
    s'.Ok ∧ s'.view = s'.live.map (recordOf s.heap) := by
  have hp : s'.live.Perm (livePre ++ liveSuf) := hl' ▸ Sweep.front_perm.append_left livePre
  have hd := h.distinct
  rw [hl, List.pairwise_append, List.pairwise_cons] at hd
  have ha {r'} (hm : r' ∈ s'.live) : Apart r r' := by
    rcases List.mem_append.mp (hp.subset hm) with hm | hm
    case inl => exact (hd.right.right r' hm r (by simp)).symm
    case inr => exact hd.right.left.left r' hm
  have hm {r'} (hm : r' ∈ s'.live) : r' ∈ s.live := by
    rw [hl]
    have := hp.subset hm
    simp only [List.mem_append, List.mem_cons] at this ⊢
    tauto
  constructor
  case left =>
    refine ⟨hs, fun r' hr' => ?_, (hp.pairwise_iff fun h => h.symm).mpr ?_⟩
    case refine_1 => rw [hf r' (ha hr')]; exact h.stored r' (hm hr')
    case refine_2 =>
      exact List.pairwise_append.mpr
        ⟨hd.left, hd.right.left.right, fun r₁ h₁ r₂ h₂ => hd.right.right r₁ h₁ r₂ (by simp [h₂])⟩
  case right => exact List.map_congr_left fun r' hr' => by rw [recordOf, recordOf, hf r' (ha hr')]

theorem deliver_eq (event : BitVec 8) (h : (content s.heap r).isSome) :
    deliver event r s = some { s with calls := s.calls ++ [(recordOf s.heap r).call event] } := by
  obtain ⟨b, hb⟩ := Option.isSome_iff_exists.mp h
  simp [deliver, recordOf, Record.call, hb]

-- A handle has been added to those that are known.
structure Appended (item : Item) (e : RegEntry) (s s' : Poll) : Prop where
  ok    : s'.Ok
  view  : s'.view = s.view ++ [recorded item e]
  nseen : s'.nseen = s.nseen + 1
  alive : s'.alive = (realloc (s.nseen + 2) item.junk s.alive).set s.nseen true
  calls : s'.calls = s.calls ++ [(recorded item e).call eventReflectOpen]

-- Nothing but unused cells has changed.
structure Same (s s' : Poll) : Prop where
  ok    : s'.Ok
  live  : s'.live = s.live
  heap  : s'.heap = s.heap
  nseen : s'.nseen = s.nseen
  alive : s'.alive = s.alive
  calls : s'.calls = s.calls

theorem Same.rfl (h : s.Ok) : Same s s :=
  ⟨h, by rfl, by rfl, by rfl, by rfl, by rfl⟩

theorem append_eq_some (h : s.Ok) (hs : item.seenOk) (ha : item.aliveOk) :
    ∃ s', append m item e s = some s' ∧ Appended item e s s' := by
  have hr := record_recorded m item e s.heap
  let seen := (realloc (s.nseen + 1) (fun _ => .zero) s.seen).set s.nseen (record m item e s.heap).2
  let s₁ : Poll :=
    { heap  := (record m item e s.heap).1
      seen  := seen
      nseen := s.nseen + 1
      alive := (realloc (s.nseen + 2) item.junk s.alive).set s.nseen true
      calls := s.calls }
  have hl : s₁.live = s.live ++ [(record m item e s.heap).2] := by
    rw [Shared.live, take_succ_set (by simp), take_realloc (by omega) h.size]
    rfl
  have hn : s₁.nseen ≤ s₁.seen.length := by simp [s₁, seen]
  have ⟨hok, hv⟩ := h.concat hn hl hr
  refine ⟨{ s₁ with calls := s.calls ++ [(recorded item e).call eventReflectOpen] }, ?_,
    hok, hv, rfl, rfl, rfl⟩
  have hd := deliver_eq eventReflectOpen (s := s₁) hr.stored
  rw [hr.record] at hd
  simp only [append, hs, ha, Bool.not_true, Bool.false_eq_true, if_false]
  rw [store_eq_some _ (by simp), store_eq_some _ (by simp)]
  exact hd

-- Nothing is recorded without memory.
theorem append_eq_self (h : s.Ok) (hn : ¬(item.seenOk ∧ item.aliveOk)) :
    ∃ s', append m item e s = some s' ∧ Same s s' := by
  by_cases hs : item.seenOk
  case neg => exact ⟨s, by simp [append, hs], .rfl h⟩
  case pos =>
    have ha : item.aliveOk = false := by simpa [hs] using hn
    have hl : (realloc (s.nseen + 1) (fun _ => .zero) s.seen).take s.nseen = s.live :=
      take_realloc (by omega) h.size
    refine ⟨{ s with seen := realloc (s.nseen + 1) (fun _ => .zero) s.seen }, ?_,
      h.congr hl rfl (by simp), hl, rfl, rfl, rfl, rfl⟩
    simp [append, hs, ha]

-- A new handle for which there is memory.
def appends (live : List Seen) (item : Item) : Bool :=
  item.entry.isSome && live.all (·.id ≠ item.key) && item.seenOk && item.aliveOk

def index (live : List Seen) (item : Item) : Nat :=
  live.findIdx (·.id = item.key)

theorem index_lt_iff (live : List Seen) (item : Item) :
    index live item < live.length ↔ ∃ r ∈ live, r.id = item.key := by
  simp [index, List.findIdx_lt_length]

-- What becomes of a poll with a key of the registry.
inductive Scanned (s : Poll) (item : Item) : Option Poll → Prop
  | skipped {s' : Poll} (ha : ¬appends s.live item)
    (hk : item.entry.isSome → ¬index s.live item < s.nseen) (hs : Same s s') : Scanned s item (some s')
  | known (he : item.entry.isSome) (ha : ¬appends s.live item) (hk : index s.live item < s.nseen) :
    Scanned s item <| (store s.alive (index s.live item) true).bind fun alive => some { s with alive }
  | appended {s' : Poll} {e : RegEntry} (he : item.entry = some e) (ha : appends s.live item)
    (hs : Appended item e s s') : Scanned s item (some s')

theorem scanItem_scanned (m : Malloc) (item : Item) (h : s.Ok) : Scanned s item (scanItem m s item) := by
  rw [scanItem]
  cases he : item.entry
  case none => exact .skipped (by simp [appends, he]) (by simp [he]) (.rfl h)
  case some e =>
    simp only [find_live h, Option.bind_eq_bind, Option.bind_some]
    have hl := index_lt_iff s.live item
    rw [h.length_live] at hl
    change Scanned s item (if index s.live item < s.nseen then _ else _)
    by_cases hk : index s.live item < s.nseen
    case pos =>
      rw [if_pos hk]
      refine .known (by simp [he]) ?_ hk
      have hn : ¬∀ r ∈ s.live, r.id ≠ item.key := by simpa using hl.mp hk
      exact fun ha => hn <| by simp_all [appends]
    case neg =>
      rw [if_neg hk]
      by_cases hm : item.seenOk ∧ item.aliveOk
      case pos =>
        have ⟨s', hs', ha⟩ := append_eq_some (m := m) (e := e) h hm.left hm.right
        rw [hs']
        refine .appended he ?_ ha
        have : ∀ r ∈ s.live, r.id ≠ item.key := fun r hr hid => hk <| hl.mpr ⟨r, hr, hid⟩
        simpa [appends, he, hm] using this
      case neg =>
        have ⟨s', hs', hs⟩ := append_eq_self (m := m) (e := e) h hm
        rw [hs']
        exact .skipped (by simpa [appends, he] using fun _ hs => by simpa [hs] using hm) (fun _ => hk) hs

-- The handles that are known, together with whether they have been found in the registry.
structure Marked (s : Poll) (ys : List (Record × Bool)) : Prop where
  ok    : s.Ok
  view  : s.view = ys.map Prod.fst
  alive : s.alive.take s.nseen = ys.map Prod.snd

namespace Marked

variable {ys pre suf : List (Record × Bool)} {y : Record × Bool} {fuel : Nat}

theorem of_le (h : s.Ok) (hl : s.nseen ≤ s.alive.length) :
    Marked s (s.view.zip (s.alive.take s.nseen)) := by
  have hv := h.length_view
  refine ⟨h, ?_, ?_⟩
  case refine_1 => rw [List.map_fst_zip (by simp; omega)]
  case refine_2 => rw [List.map_snd_zip (by simp; omega)]

theorem length_eq (h : Marked s ys) : ys.length = s.nseen := by
  rw [← h.ok.length_view, h.view, List.length_map]

theorem le_length_alive (h : Marked s ys) : s.nseen ≤ s.alive.length := by
  have := congrArg List.length h.alive
  rw [List.length_take, List.length_map, h.length_eq] at this
  omega

theorem alive_eq (h : Marked s (pre ++ y :: suf)) : s.alive[pre.length]? = some y.2 := by
  have hl := h.length_eq
  rw [List.length_append, List.length_cons] at hl
  rw [← List.getElem?_take_of_lt (j := s.nseen) (by omega), h.alive]
  simp

-- The handle at the index of a record.
theorem live_eq (h : Marked s (pre ++ y :: suf)) : ∃ livePre r liveSuf,
    s.live = livePre ++ r :: liveSuf ∧ livePre.length = pre.length ∧
    livePre.map (recordOf s.heap) = pre.map Prod.fst ∧ recordOf s.heap r = y.1 ∧
    liveSuf.map (recordOf s.heap) = suf.map Prod.fst := by
  have hv := h.view
  rw [Shared.view, List.map_append, List.map_cons, List.map_eq_append_iff] at hv
  obtain ⟨livePre, rest, hl, hpre, hrest⟩ := hv
  obtain ⟨r, liveSuf, rfl, hr, hsuf⟩ := List.map_eq_cons_iff.mp hrest
  exact ⟨livePre, r, liveSuf, hl, by simpa using congrArg List.length hpre, hpre, hr, hsuf⟩

-- One handle is removed.
theorem remove_eq (h : Marked s (pre ++ y :: suf)) : ∃ s', remove pre.length s = some s' ∧
    Marked s' (pre ++ Sweep.front suf) ∧ s'.calls = s.calls ++ [y.1.call eventReflectClose] := by
  obtain ⟨livePre, r, liveSuf, hl, hlen, hpre, hr, hsuf⟩ := h.live_eq
  have hn := h.length_eq
  have hsize := h.ok.size
  have hal := h.le_length_alive
  rw [List.length_append, List.length_cons] at hn
  have hseen : s.seen[pre.length]? = some r := by
    rw [← List.getElem?_take_of_lt (j := s.nseen) (by omega), ← hlen]
    change s.live[livePre.length]? = some r
    simp [hl]
  have hc : (content s.heap r).isSome := h.ok.stored r (by simp [hl])
  obtain ⟨heap', hrel, hframe⟩ := release_eq hc
  have hlast := List.getElem?_eq_getElem (l := s.seen) (i := s.nseen - 1) (by omega)
  have hb := List.getElem?_eq_getElem (l := s.alive) (i := s.nseen - 1) (by omega)
  let s' : Poll :=
    { heap  := heap'
      seen  := s.seen.set pre.length s.seen[s.nseen - 1]
      alive := s.alive.set pre.length s.alive[s.nseen - 1]
      nseen := s.nseen - 1
      calls := s.calls ++ [y.1.call eventReflectClose] }
  have hl' : s'.live = livePre ++ Sweep.front liveSuf := by
    have hf := Sweep.take_set_eq_fill hsize (i := pre.length) (by omega) hlast
    rw [show s.seen.take s.nseen = livePre ++ r :: liveSuf from hl, ← hlen, Sweep.fill_append, hlen] at hf
    exact hf
  have hn : s'.nseen ≤ s'.seen.length := by simp [s']; omega
  have ⟨hok, hv⟩ := h.ok.fill hn hl hl' hframe
  refine ⟨s', ?_, ⟨hok, ?_, ?_⟩, rfl⟩
  case refine_1 =>
    have hst := store_eq_some s.seen[s.nseen - 1] (show pre.length < s.seen.length by omega)
    have hsa := store_eq_some s.alive[s.nseen - 1] (show pre.length < s.alive.length by omega)
    simp [remove, hseen, deliver_eq _ hc, hr, hrel, hlast, hb, hst, hsa, s']
  case refine_2 =>
    rw [hv, hl', List.map_append, Sweep.map_front, hpre, hsuf, List.map_append,
      Sweep.map_front]
  case refine_3 =>
    have hf := Sweep.take_set_eq_fill hal (i := pre.length) (by omega) hb
    rw [h.alive, List.map_append, List.map_cons] at hf
    have hlm : pre.length = (pre.map Prod.snd).length := by simp
    rw [List.map_append, Sweep.map_front, ← Sweep.fill_append (a := y.2), ← hlm]
    exact hf

-- The handles that have not been found are removed.
theorem removeDead_eq (pre : List (Record × Bool)) (h : Marked s (pre ++ suf)) (hf : suf.length ≤ fuel) :
    ∃ s', removeDead fuel pre.length s = some s' ∧
      Marked s' (Sweep.sweep (!·.2) fuel pre.length (pre ++ suf)).2 ∧
      s'.calls = s.calls ++ (Sweep.sweep (!·.2) fuel pre.length (pre ++ suf)).1.map
        (·.1.call eventReflectClose) := by
  induction fuel generalizing pre suf s
  case zero => exact ⟨s, rfl, h, by simp [Sweep.sweep]⟩
  case succ fuel ih =>
    rw [removeDead]
    have hn := h.length_eq
    cases suf
    case nil =>
      rw [if_pos (by simpa using hn.ge), List.append_nil, Sweep.sweep_length]
      exact ⟨s, rfl, by simpa using h, by simp⟩
    case cons y suf =>
      rw [List.length_append, List.length_cons] at hn
      rw [if_neg (by omega), h.alive_eq, Option.bind_eq_bind, Option.bind_some]
      simp only [List.length_cons, Nat.succ_le_succ_iff] at hf
      by_cases hy : y.2
      case pos =>
        rw [if_pos hy, Sweep.sweep_append_cons_of_not pre (by simp [hy])]
        have := ih (s := s) (pre ++ [y]) (by simpa using h) hf
        rwa [List.length_append] at this ⊢
      case neg =>
        obtain ⟨s₁, hs₁, hm, hc⟩ := h.remove_eq
        obtain ⟨s', hs', hm', hc'⟩ := ih pre hm (by simpa using hf)
        rw [if_neg hy, hs₁, Sweep.sweep_append_cons pre (by simpa using hy)]
        exact ⟨s', hs', hm', by simp [hc', hc]⟩

theorem removeDead_all (h : Marked s ys) : ∃ s', removeDead s.nseen 0 s = some s' ∧
    Marked s' (Sweep.sweepAll (!·.2) ys).2 ∧
    s'.calls = s.calls ++ (Sweep.sweepAll (!·.2) ys).1.map (·.1.call eventReflectClose) := by
  rw [← h.length_eq]
  exact removeDead_eq [] h le_rfl

end Marked

-- Handles without a cell in `alive` are a fault.
theorem remove_eq_none (h : s.alive.length < s.nseen) : remove i s = none := by
  refine Option.eq_none_iff_forall_ne_some.mpr fun s' hs' => ?_
  simp only [remove, deliver, Option.bind_eq_bind, Option.bind_eq_some_iff, Option.some.injEq] at hs'
  obtain ⟨_, _, _, ⟨_, _, rfl⟩, _, _, _, _, _, _, b, hb, _⟩ := hs'
  rw [List.getElem?_eq_none (by simp only; omega)] at hb
  cases hb

theorem removeDead_eq_none {fuel : Nat} (h : s.alive.length < s.nseen) (hi : i ≤ s.alive.length)
    (hf : s.nseen ≤ i + fuel) : removeDead fuel i s = none := by
  induction fuel generalizing i
  case zero => omega
  case succ fuel ih =>
    rw [removeDead, if_neg (by omega)]
    by_cases hl : i < s.alive.length
    case neg => simp [List.getElem?_eq_none (Nat.le_of_not_lt hl)]
    case pos =>
      rw [List.getElem?_eq_getElem hl, Option.bind_eq_bind, Option.bind_some]
      split_ifs
      case pos => exact ih hl (by omega)
      case neg => rw [remove_eq_none h]; rfl

-- The second loop accesses no other memory iff there is a cell of `alive` for every handle.
theorem removeDead_isSome_iff (h : s.Ok) :
    (removeDead s.nseen 0 s).isSome ↔ s.nseen ≤ s.alive.length := by
  by_cases hl : s.nseen ≤ s.alive.length
  case pos =>
    have ⟨s', hs', _⟩ := (Marked.of_le h hl).removeDead_all
    simp [hl, hs']
  case neg =>
    have hn : removeDead s.nseen 0 s = none := removeDead_eq_none (by omega) (Nat.zero_le _) (by omega)
    simp [hn, hl]

section Faults

variable {items : List Item} {n₀ : Nat}

theorem scanItem_ok (h : s.Ok) (hs : scanItem m s item = some s') : s'.Ok := by
  have ho := scanItem_scanned m item h
  rw [hs] at ho
  generalize hout : some s' = out at ho
  cases ho
  case skipped hs => cases hout; exact hs.ok
  case known =>
    obtain ⟨_, _, he⟩ := Option.bind_eq_some_iff.mp hout.symm
    cases he
    exact h
  case appended hs => cases hout; exact hs.ok

theorem scan_ok (h : s.Ok) (hs : items.foldlM (scanItem m) s = some s') : s'.Ok := by
  induction items generalizing s
  case nil => cases hs; exact h
  case cons item items ih =>
    rw [List.foldlM_cons] at hs
    obtain ⟨s₁, hs₁, hs⟩ := Option.bind_eq_some_iff.mp hs
    exact ih (scanItem_ok h hs₁) hs

-- The first loop ends with a cell of `alive` for every handle.
def Safe (m : Malloc) (items : List Item) (s : Poll) : Prop :=
  ∃ s', items.foldlM (scanItem m) s = some s' ∧ s'.nseen ≤ s'.alive.length

theorem safe_cons : Safe m (item :: items) s ↔ ∃ s', scanItem m s item = some s' ∧ Safe m items s' := by
  simp only [Safe, List.foldlM_cons, Option.bind_eq_bind, Option.bind_eq_some_iff]
  grind

-- After a handle has been added there is room enough.
theorem safe_of_lt (h : s.Ok) (hl : s.nseen < s.alive.length) : Safe m items s := by
  induction items generalizing s
  case nil => exact ⟨s, rfl, hl.le⟩
  case cons item items ih =>
    rw [safe_cons]
    have hs := scanItem_scanned m item h
    generalize scanItem m s item = out at hs
    cases hs
    case skipped s' _ _ hs => exact ⟨s', rfl, ih hs.ok (by rw [hs.nseen, hs.alive]; exact hl)⟩
    case known hk =>
      rw [store_eq_some _ (hk.trans hl)]
      exact ⟨_, rfl, ih h (by simpa using hl)⟩
    case appended s' _ _ _ hs => exact ⟨s', rfl, ih hs.ok (by rw [hs.nseen, hs.alive]; simp)⟩

-- Before that every handle that is found must have one of the first cells, and at the end all of
-- them.
structure Covered (n₀ : Nat) (items : List Item) (s : Shared) : Prop where
  known : ∀ item ∈ items.takeWhile (!appends s.live ·), item.entry.isSome →
    index s.live item < s.nseen → index s.live item ≤ n₀
  rest  : (∀ item ∈ items, ¬appends s.live item) → s.nseen ≤ n₀ + 1

theorem covered_congr {s s' : Shared} (hl : s'.live = s.live) (hn : s'.nseen = s.nseen) :
    Covered n₀ items s' ↔ Covered n₀ items s := by
  constructor <;> intro ⟨hk, hr⟩ <;> exact ⟨by simpa [hl, hn] using hk, by simpa [hl, hn] using hr⟩

theorem covered_cons {s : Shared} (ha : ¬appends s.live item) : Covered n₀ (item :: items) s ↔
    (item.entry.isSome → index s.live item < s.nseen → index s.live item ≤ n₀) ∧ Covered n₀ items s := by
  have ht : (item :: items).takeWhile (!appends s.live ·) =
      item :: items.takeWhile (!appends s.live ·) := by simp [ha]
  constructor
  case mp =>
    intro ⟨hk, hr⟩
    rw [ht, List.forall_mem_cons] at hk
    exact ⟨hk.left, hk.right, fun h => hr <| List.forall_mem_cons.mpr ⟨ha, h⟩⟩
  case mpr =>
    intro ⟨h, hk, hr⟩
    refine ⟨?_, fun h => hr (List.forall_mem_cons.mp h).right⟩
    rw [ht, List.forall_mem_cons]
    exact ⟨h, hk⟩

theorem safe_iff (m : Malloc) (items : List Item) (h : s.Ok) (hl : s.alive.length = n₀ + 1) :
    Safe m items s ↔ Covered n₀ items s.toShared := by
  induction items generalizing s
  case nil =>
    constructor
    case mp =>
      intro ⟨s', hs', hl'⟩
      cases hs'
      exact ⟨by simp, fun _ => hl ▸ hl'⟩
    case mpr => exact fun hc => ⟨s, rfl, hl ▸ hc.rest (by simp)⟩
  case cons item items ih =>
    rw [safe_cons]
    have hs := scanItem_scanned m item h
    generalize scanItem m s item = out at hs
    cases hs
    case skipped s' ha hk hs =>
      rw [covered_cons ha, ← covered_congr hs.live hs.nseen, ← ih hs.ok (hs.alive ▸ hl)]
      simp only [Option.some.injEq, exists_eq_left']
      exact (and_iff_right fun he hi => absurd hi (hk he)).symm
    case known he ha hk =>
      rw [covered_cons ha]
      by_cases hi : index s.live item < s.alive.length
      case pos =>
        rw [store_eq_some _ hi]
        have := ih (s := { s with alive := s.alive.set (index s.live item) true }) h (by simpa using hl)
        simp only [Option.bind_some, Option.some.injEq, exists_eq_left', this]
        exact (and_iff_right fun _ _ => by omega).symm
      case neg =>
        rw [store, if_neg hi]
        simp only [Option.bind_none, reduceCtorEq, false_and, exists_false, false_iff, not_and]
        exact fun hc => absurd (hc he hk) (by omega)
    case appended s' e he ha hs =>
      have hc : Covered n₀ (item :: items) s.toShared :=
        ⟨by simp [ha], fun h => absurd ha (h item (by simp))⟩
      have : Safe m items s' := safe_of_lt hs.ok (by rw [hs.nseen, hs.alive]; simp)
      simpa [hc] using this

theorem poll_isSome_iff {s : Shared} (h : s.Ok) : (poll m n₀ items s).isSome ↔ Covered n₀ items s := by
  have hl : (List.replicate (n₀ + 1) false).length = n₀ + 1 := List.length_replicate
  have hs := safe_iff m items (s := ⟨s, .replicate (n₀ + 1) false, []⟩) h hl
  rw [← hs, poll, Safe]
  cases hf : items.foldlM (scanItem m) ⟨s, .replicate (n₀ + 1) false, []⟩
  case none => simp
  case some s₁ =>
    have hd := removeDead_isSome_iff (scan_ok h hf)
    simp only [Option.bind_eq_bind, Option.bind_some, Option.some.injEq, exists_eq_left', ← hd]
    cases removeDead s₁.nseen 0 s₁ <;> simp

theorem poll_ok {s s' : Shared} {calls : List Call} (h : s.Ok)
    (hp : poll m n₀ items s = some (s', calls)) : s'.Ok := by
  simp only [poll, Option.bind_eq_bind, Option.bind_eq_some_iff, Option.some.injEq, Prod.mk.injEq] at hp
  obtain ⟨s₁, hs₁, s₂, hs₂, rfl, _⟩ := hp
  have hok := scan_ok h hs₁
  have hm := Marked.of_le hok <| (removeDead_isSome_iff hok).mp (by simp [hs₂])
  have ⟨s', hs', hm', _⟩ := hm.removeDead_all
  cases hs₂.symm.trans hs'
  exact hm'.ok

end Faults

section Threads

variable {T : Type} [DecidableEq T] {c : Threads.Config T Shared Pc} {es : List (T × Event)}

-- A handle that no thread is polling yet.
def start : Threads.Config T Shared Pc := ⟨opened, fun _ => .idle⟩

theorem ok_of_trace (h : Threads.Trace (Run m) start es c) : c.shared.Ok := by
  refine h.invariant (P := fun _ c => c.shared.Ok) Shared.ok_opened fun es c t e s l ih hr => ?_
  generalize c.pc t = l₀ at hr
  cases hr
  case arm      => exact ih
  case poll hp  => exact poll_ok ih hp
  case fault hp => exact ih

end Threads

-- Whatever the threads have done before, a poll stays within the allocated memory iff it is covered
-- by the cells that it has allocated.
theorem poll_safe_iff {T : Type} [DecidableEq T] (m : Malloc) {c : Threads.Config T Shared Pc}
    {es : List (T × Event)} (h : Threads.Trace (Run m) start es c) (n₀ : Nat) (items : List Item) :
    (poll m n₀ items c.shared).isSome ↔ Covered n₀ items c.shared :=
  poll_isSome_iff (ok_of_trace h)

theorem not_mem_of_foldr_lt {l : List Nat} {n : Nat} (h : l.foldr max 0 < n) : n ∉ l := by
  induction l
  case nil => simp
  case cons k l ih =>
    rw [List.foldr_cons, max_lt_iff] at h
    exact List.not_mem_cons_of_ne_of_not_mem h.left.ne' (ih h.right)

-- Blocks are placed behind all others.
def bump : Malloc where
  pick heap  := heap.keys.foldr max 0 + 1
  fresh _    := not_mem_of_foldr_lt (Nat.lt_succ_self _)

-- A handle without a filter.
def itemOf (key : BitVec 64) : Item where
  key      := key
  entry    := some ⟨0, 1234, .network, 0, 0, 0, .replicate regFilterMax 0, List.length_replicate⟩
  seenOk   := true
  aliveOk  := true
  filterOk := true
  junk     := fun _ => false

-- Two threads start to poll, and one of them finds a handle.
theorem trace_poll (m : Malloc) (items : List Item) {s : Shared} {calls : List Call}
    (hp : poll m 0 items opened = some (s, calls)) :
    ∃ es, ∃ c : Threads.Config Bool Shared Pc, Threads.Trace (Run m) start es c ∧ c.shared = s ∧
      c.pc true = .armed 0 :=
  ⟨_, _, .cons (.cons (.cons .nil (.mk (t := true) .arm)) (.mk (t := false) .arm))
    (.mk (t := false) (.poll hp)), rfl, rfl⟩

theorem poll_safe_iff_one : ∃ es, ∃ c : Threads.Config Bool Shared Pc,
    Threads.Trace (Run bump) start es c ∧ c.shared.nseen = 1 ∧
    ((poll bump 0 [itemOf 1] c.shared).isSome ↔ Covered 0 [itemOf 1] c.shared) := by
  have ⟨es, c, h, hs, _⟩ := trace_poll bump [itemOf 1] rfl
  exact ⟨es, c, h, by rw [hs]; rfl, poll_safe_iff bump h 0 [itemOf 1]⟩

-- The other thread has allocated a single cell when two handles are known.
theorem poll_faults : ∃ es, ∃ c : Threads.Config Bool Shared Pc,
    Threads.Trace (Run bump) start es c ∧ c.pc true = .faulted := by
  have ⟨es, c, h, hs, ht⟩ := trace_poll bump [itemOf 1, itemOf 2] rfl
  have hf : poll bump 0 [itemOf 1, itemOf 2] c.shared = none := by rw [hs]; rfl
  have hstep : Run bump .fault c.shared (c.pc true) c.shared .faulted := ht ▸ .fault hf
  exact ⟨_, _, h.cons (.mk hstep), by simp⟩

end Handle.Reflect
