import EbpfDivert.Handle.Queue
import Mathlib.Data.List.TakeWhile
import Mathlib.Logic.Relation

open Linked

namespace Handle.Queue

variable {q q' q'' : Queue} {xs ys : List (Nat × Entry)} {e : Entry} {p : Nat} {now : Int}
variable {fdOk : Bool} {fuel : Nat} {param : Param} {value : BitVec 64}

def bytes (xs : List (Nat × Entry)) : Nat :=
  (xs.map (·.2.len)).sum

@[simp] theorem bytes_nil : bytes [] = 0 := rfl

@[simp] theorem bytes_cons {x : Nat × Entry} : bytes (x :: xs) = x.2.len + bytes xs := by
  simp [bytes]

@[simp] theorem bytes_append : bytes (xs ++ ys) = bytes xs + bytes ys := by
  simp [bytes]

-- The queue consists of these entries.
structure Holds (q : Queue) (xs : List (Nat × Entry)) : Prop where
  chain      : Chain q.heap q.qhead xs
  tail       : q.qtail = xs.getLast?.map Prod.fst
  qlen       : q.qlen.toNat = xs.length
  qbytes     : q.qbytes.toNat = bytes xs
  length_le  : xs.length ≤ queueLengthMax.toNat
  bytes_le   : bytes xs ≤ queueSizeMax.toNat
  maxLength  : q.queueLength ≤ queueLengthMax
  maxSize    : q.queueSize ≤ queueSizeMax

-- What the operations of the queue leave alone.
structure Frame (q q' : Queue) : Prop where
  queueLength : q'.queueLength = q.queueLength
  queueTime   : q'.queueTime = q.queueTime
  queueSize   : q'.queueSize = q.queueSize
  shutRecv    : q'.shutRecv = q.shutRecv

theorem Frame.refl : Frame q q :=
  ⟨rfl, rfl, rfl, rfl⟩

theorem Frame.trans (h₁ : Frame q q') (h₂ : Frame q' q'') : Frame q q'' where
  queueLength := h₂.queueLength.trans h₁.queueLength
  queueTime   := h₂.queueTime.trans h₁.queueTime
  queueSize   := h₂.queueSize.trans h₁.queueSize
  shutRecv    := h₂.shutRecv.trans h₁.shutRecv

-- Waking up only changes the descriptor.
theorem wakeUpdate_eq (fdOk : Bool) (q : Queue) :
    ∃ wakeSet, q.wakeUpdate fdOk = { q with wakeSet } := by
  rw [wakeUpdate]
  split_ifs
  · exact ⟨_, rfl⟩
  · exact ⟨_, rfl⟩
  · exact ⟨q.wakeSet, rfl⟩

theorem Frame.wakeUpdate (hf : Frame q q') : Frame q (q'.wakeUpdate fdOk) := by
  have ⟨_, he⟩ := wakeUpdate_eq fdOk q'
  exact he ▸ ⟨hf.queueLength, hf.queueTime, hf.queueSize, hf.shutRecv⟩

theorem Holds.wakeUpdate (hh : q.Holds xs) : (q.wakeUpdate fdOk).Holds xs := by
  have ⟨_, he⟩ := wakeUpdate_eq fdOk q
  exact he ▸ ⟨hh.chain, hh.tail, hh.qlen, hh.qbytes, hh.length_le, hh.bytes_le, hh.maxLength,
    hh.maxSize⟩

theorem wakeUpdate_queueDrops : (q.wakeUpdate fdOk).queueDrops = q.queueDrops := by
  have ⟨_, he⟩ := wakeUpdate_eq fdOk q
  rw [he]

theorem Holds.tail_none_iff (hh : q.Holds xs) : q.qtail = none ↔ q.qhead = none := by
  rw [hh.tail, ← hh.chain.eq_nil_iff]
  simp

-- There is room for another entry.
abbrev Admits (q : Queue) (xs : List (Nat × Entry)) (e : Entry) : Prop :=
  xs.length < q.queueLength.toNat ∧ bytes xs + e.len ≤ q.queueSize.toNat

theorem Holds.qbytes_add (hh : q.Holds xs) :
    (q.qbytes + .ofNat 64 e.len).toNat = bytes xs + e.len := by
  have := hh.bytes_le
  have := e.len_lt
  have hs : queueSizeMax.toNat = 33554432 := rfl
  rw [BitVec.toNat_add, hh.qbytes, BitVec.toNat_ofNat, Entry.len]
  omega

theorem Holds.refuses_iff (hh : q.Holds xs) :
    (q.queueLength ≤ q.qlen ∨ q.queueSize < q.qbytes + .ofNat 64 e.len) ↔ ¬q.Admits xs e := by
  rw [BitVec.le_def, BitVec.lt_def, hh.qbytes_add, hh.qlen, Admits]
  omega

theorem Holds.link (hh : q.Holds xs) (hp : p ∉ q.heap) (e : Entry) :
    ∃ heap qhead, q.link p e = some (heap, qhead) ∧ Chain heap qhead (xs ++ [(p, e)]) := by
  rcases List.eq_nil_or_concat xs with rfl | ⟨ys, ⟨t, a⟩, rfl⟩
  case inl =>
    rw [Queue.link, hh.tail]
    exact ⟨_, _, rfl, rfl, _, AList.lookup_insert _, rfl⟩
  case inr =>
    have ht : q.qtail = some t := by simp [hh.tail]
    have ⟨next, hl⟩ := hh.chain.lookup (i := t) (a := a) (by simp)
    have hx : t ≠ p := by
      rintro rfl
      exact hp <| hh.chain.mem_heap (by simp)
    have hl' : (q.heap.insert p ⟨e, none⟩).lookup t = some ⟨a, next⟩ :=
      (AList.lookup_insert_ne hx).trans hl
    rw [Queue.link, ht]
    simp only [hl']
    refine ⟨_, _, rfl, ?_⟩
    rw [List.concat_eq_append, List.append_assoc]
    rw [List.concat_eq_append] at hh
    exact hh.chain.snoc hp

-- What a push does: the entry is dropped or becomes the last one.
inductive Pushed (q : Queue) (xs : List (Nat × Entry)) (p : Nat) (e : Entry) (fdOk : Bool) :
    Queue → Prop
  | dropped (ha : ¬q.Admits xs e) : Pushed q xs p e fdOk { q with queueDrops := q.queueDrops + 1 }
  | linked {q' : Queue} (ha : q.Admits xs e) (hh : q'.Holds (xs ++ [(p, e)])) (hf : Frame q q')
    (hd : q'.queueDrops = q.queueDrops) : Pushed q xs p e fdOk (q'.wakeUpdate fdOk)

theorem Holds.push (hh : q.Holds xs) (hp : p ∉ q.heap) (fdOk : Bool) (e : Entry) :
    ∃ q', q.push fdOk p e = some q' ∧ Pushed q xs p e fdOk q' := by
  by_cases ha : q.Admits xs e
  case neg => exact ⟨_, if_pos (hh.refuses_iff.mpr ha), .dropped ha⟩
  case pos =>
    have ⟨heap, qhead, hl, hc⟩ := hh.link hp e
    rw [Queue.push, if_neg (by rwa [hh.refuses_iff, not_not]), hl]
    refine ⟨_, rfl, .linked ha ?_ ⟨rfl, rfl, rfl, rfl⟩ rfl⟩
    have hn := BitVec.le_def.mp hh.maxLength
    have hs := BitVec.le_def.mp hh.maxSize
    have hm : queueLengthMax.toNat = 16384 := rfl
    have ⟨hl, hb⟩ := ha
    constructor
    case chain     => exact hc
    case tail      => simp
    case qlen      =>
      simp only [BitVec.toNat_add, hh.qlen, List.length_append]
      simp
      omega
    case qbytes    => simp [hh.qbytes_add]
    case length_le => simp; omega
    case bytes_le  => simp; omega
    case maxLength => exact hh.maxLength
    case maxSize   => exact hh.maxSize

theorem Holds.unlink (hh : q.Holds ((p, e) :: xs)) : ∃ next,
    q.heap.lookup p = some ⟨e, next⟩ ∧ (q.unlink p ⟨e, next⟩).Holds xs := by
  have ⟨next, hl, hc⟩ := hh.chain.erase_head
  have hn := hh.qlen
  have hb := hh.qbytes
  have hnl := hh.length_le
  have hbl := hh.bytes_le
  simp only [List.length_cons, bytes_cons] at hn hb hnl hbl
  refine ⟨next, hl, ?_⟩
  constructor
  case chain     => exact hc
  case tail      =>
    simp only [Queue.unlink, hh.tail]
    cases xs
    case nil       => simp [hc.eq_nil_iff.mp rfl]
    case cons x xs => simp [hc.left]
  case qlen      =>
    have h₁ : (1 : BitVec 64) ≤ q.qlen := BitVec.le_def.mpr (by simp; omega)
    simp only [Queue.unlink]
    rw [BitVec.toNat_sub_of_le h₁, hn]
    simp
  case qbytes    =>
    have h₁ : (BitVec.ofNat 64 e.len).toNat = e.len := by
      have := e.len_lt
      rw [BitVec.toNat_ofNat, Entry.len]
      omega
    simp only [Queue.unlink]
    rw [BitVec.toNat_sub_of_le (BitVec.le_def.mpr (by omega))]
    omega
  case length_le => omega
  case bytes_le  => omega
  case maxLength => exact hh.maxLength
  case maxSize   => exact hh.maxSize

-- What has become too old at the head of the queue is dropped.
def live (queueTime : BitVec 64) (now : Int) (xs : List (Nat × Entry)) : List (Nat × Entry) :=
  xs.dropWhile (expired queueTime now ·.2)

structure Popped (q : Queue) (xs : List (Nat × Entry)) (now : Int) (q' : Queue) : Prop where
  holds : q'.Holds (live q.queueTime now xs).tail
  frame : Frame q q'
  drops : q'.queueDrops + .ofNat 64 (live q.queueTime now xs).length =
    q.queueDrops + .ofNat 64 xs.length

theorem popLoop_none (hq : q.qhead = none) : popLoop now fuel q = some (none, q) := by
  rw [popLoop.eq_def, hq]

theorem popLoop_some {node : Node Entry} (hq : q.qhead = some p) (hl : q.heap.lookup p = some node) :
    popLoop now (fuel + 1) q = if expired q.queueTime now node.data then
      popLoop now fuel { q.unlink p node with queueDrops := q.queueDrops + 1 }
    else some (some node.data, q.unlink p node) := by
  rw [popLoop.eq_def, hq]
  simp [hl]

theorem Holds.dropped (hh : q.Holds xs) : { q with queueDrops := q.queueDrops + 1 }.Holds xs :=
  ⟨hh.chain, hh.tail, hh.qlen, hh.qbytes, hh.length_le, hh.bytes_le, hh.maxLength, hh.maxSize⟩

theorem live_of_expired {queueTime : BitVec 64} (he : expired queueTime now e) :
    live queueTime now ((p, e) :: xs) = live queueTime now xs := by
  simp [live, he]

theorem live_of_fresh {queueTime : BitVec 64} (he : ¬expired queueTime now e) :
    live queueTime now ((p, e) :: xs) = (p, e) :: xs := by
  simp [live, he]

-- The first entry that has not expired.
theorem head_live {queueTime : BitVec 64} : (live queueTime now xs).head?.map Prod.snd =
    (xs.map Prod.snd).find? fun e => !expired queueTime now e := by
  rw [List.find?_map, live, ← List.find?_not_eq_head?_dropWhile]
  rfl

theorem Holds.popLoop (hh : q.Holds xs) (hf : xs.length ≤ fuel) (now : Int) :
    ∃ q', popLoop now fuel q = some ((live q.queueTime now xs).head?.map Prod.snd, q') ∧
      Popped q xs now q' := by
  induction xs generalizing q fuel
  case nil =>
    rw [popLoop_none <| hh.chain.eq_nil_iff.mp rfl]
    exact ⟨q, rfl, hh, .refl, by simp [live]⟩
  case cons x xs ih =>
    obtain ⟨p, e⟩ := x
    obtain ⟨fuel, rfl⟩ := Nat.exists_eq_succ_of_ne_zero (show fuel ≠ 0 by simp at hf; omega)
    have ⟨next, hl, ht⟩ := hh.unlink
    rw [popLoop_some hh.chain.left hl]
    by_cases he : expired q.queueTime now e
    case neg =>
      rw [if_neg he]
      have hv : live q.queueTime now ((p, e) :: xs) = _ := live_of_fresh he
      refine ⟨q.unlink p ⟨e, next⟩, ?_, ?_, ⟨rfl, rfl, rfl, rfl⟩, ?_⟩
      · rw [hv]
        rfl
      · rwa [hv]
      · rw [hv]
        rfl
    case pos =>
      rw [if_pos he]
      have hv : live q.queueTime now ((p, e) :: xs) = _ := live_of_expired he
      have ⟨q', hp, hh, hf, hd⟩ := ih ht.dropped (Nat.le_of_succ_le_succ hf)
      refine ⟨q', hv ▸ hp, hv ▸ hh, ⟨hf.queueLength, hf.queueTime, hf.queueSize, hf.shutRecv⟩, ?_⟩
      rw [hv, List.length_cons, Nat.add_comm, BitVec.ofNat_add, ← BitVec.add_assoc]
      exact hd

theorem Holds.pop (hh : q.Holds xs) (fdOk : Bool) (now : Int) : ∃ q',
    q.pop fdOk now = some ((live q.queueTime now xs).head?.map Prod.snd, q'.wakeUpdate fdOk) ∧
      Popped q xs now q' := by
  have ⟨q', hp, hq⟩ := hh.popLoop hh.chain.length_le now
  rw [Queue.pop, hp]
  exact ⟨q', rfl, hq⟩

theorem wakeSet_wakeUpdate : (q.wakeUpdate true).wakeSet = (q.wakeUpdate true).want := by
  rw [wakeUpdate]
  split_ifs with h₁ h₂
  · simpa [want] using h₁.left
  · simpa [want] using h₂.left
  · cases hw : q.want <;> cases hs : q.wakeSet <;> simp_all

theorem holds_opened : opened.Holds [] where
  chain     := rfl
  tail      := rfl
  qlen      := rfl
  qbytes    := rfl
  length_le := Nat.zero_le _
  bytes_le  := Nat.zero_le _
  maxLength := by decide
  maxSize   := by decide

theorem Holds.setParam (hh : q.Holds xs) (hs : q.setParam param value = .ok q') :
    q'.Holds xs ∧ q'.queueDrops = q.queueDrops ∧ q'.wakeSet = q.wakeSet ∧ q'.want = q.want := by
  obtain ⟨hc, ht, hn, hb, hnl, hbl, hml, hms⟩ := hh
  cases param
  case queueLength =>
    simp only [Queue.setParam] at hs
    split_ifs at hs with hv
    cases hs
    exact ⟨⟨hc, ht, hn, hb, hnl, hbl, by bv_omega, hms⟩, rfl, rfl, rfl⟩
  case queueTime =>
    simp only [Queue.setParam] at hs
    split_ifs at hs
    cases hs
    exact ⟨⟨hc, ht, hn, hb, hnl, hbl, hml, hms⟩, rfl, rfl, rfl⟩
  case queueSize =>
    simp only [Queue.setParam] at hs
    split_ifs at hs with hv
    cases hs
    exact ⟨⟨hc, ht, hn, hb, hnl, hbl, hml, by bv_omega⟩, rfl, rfl, rfl⟩
  all_goals cases hs

-- A queue with everything that has been pushed and everything that has been returned.
structure Log where
  queue    : Queue
  pushed   : List Entry
  returned : List Entry

def Log.opened : Log := ⟨.opened, [], []⟩

inductive Step : Log → Log → Prop
  | push {s p e q'} (hp : p ∉ s.queue.heap) (hq : s.queue.push true p e = some q') :
    Step s ⟨q', s.pushed ++ [e], s.returned⟩
  | pop {s e q'} {now : Int} (hq : s.queue.pop true now = some (e, q')) :
    Step s ⟨q', s.pushed, s.returned ++ e.toList⟩
  | setParam {s param value q'} (hq : s.queue.setParam param value = .ok q') :
    Step s { s with queue := q' }
  | shutdown {s} : Step s { s with queue := s.queue.shutdownRecv true }

-- The invariant of the queue.
structure Log.Ok (s : Log) (xs : List (Nat × Entry)) : Prop where
  holds : s.queue.Holds xs
  wake  : s.queue.wakeSet = s.queue.want
  order : (s.returned ++ xs.map Prod.snd).Sublist s.pushed
  count : BitVec.ofNat 64 s.pushed.length =
    .ofNat 64 s.returned.length + .ofNat 64 xs.length + s.queue.queueDrops

theorem Log.Ok.push {s : Log} (ho : s.Ok xs) (hp : p ∉ s.queue.heap)
    (hq : s.queue.push true p e = some q') : ∃ xs, Log.Ok ⟨q', s.pushed ++ [e], s.returned⟩ xs := by
  obtain ⟨hh, hw, hs, hc⟩ := ho
  have ⟨q'', hq', hd⟩ := hh.push hp true e
  cases hq.symm.trans hq'
  cases hd
  case dropped =>
    refine ⟨xs, hh.dropped, hw, hs.trans (List.sublist_append_left ..), ?_⟩
    simp only [List.length_append, BitVec.ofNat_add, hc]
    rw [BitVec.add_assoc]
    rfl
  case linked q' ha hh' hf hd =>
    refine ⟨_, hh'.wakeUpdate, wakeSet_wakeUpdate, ?_, ?_⟩
    · simpa using hs.append_right [e]
    · simp only [List.length_append, List.length_singleton, BitVec.ofNat_add, hc,
        wakeUpdate_queueDrops, hd]
      ac_rfl

theorem Log.Ok.pop {s : Log} {now : Int} {res : Option Entry} (ho : s.Ok xs)
    (hq : s.queue.pop true now = some (res, q')) :
    ∃ xs, Log.Ok ⟨q', s.pushed, s.returned ++ res.toList⟩ xs := by
  obtain ⟨hh, hw, hs, hc⟩ := ho
  have ⟨q'', hq', hd⟩ := hh.pop true now
  cases hq.symm.trans hq'
  have hv : (live s.queue.queueTime now xs).Sublist xs := (List.dropWhile_suffix _).sublist
  have hk := hd.drops
  refine ⟨_, hd.holds.wakeUpdate, wakeSet_wakeUpdate, ?_, ?_⟩
  · refine .trans ?_ hs
    rw [List.append_assoc]
    refine List.Sublist.append_left ?_ _
    cases hl : live s.queue.queueTime now xs
    case nil  => simp
    case cons => simpa [hl] using hv.map Prod.snd
  · rw [hc, wakeUpdate_queueDrops, BitVec.add_assoc, BitVec.add_comm _ s.queue.queueDrops, ← hk]
    cases hl : live s.queue.queueTime now xs
    case nil  => simp
    case cons =>
      simp only [List.length_append, List.head?_cons, Option.map_some, Option.toList_some,
        List.length_cons, List.tail_cons, BitVec.ofNat_add]
      ac_rfl

theorem Step.ok {s s' : Log} (hs : Step s s') (ho : s.Ok xs) : ∃ xs, s'.Ok xs := by
  cases hs
  case push hp hq => exact ho.push hp hq
  case pop hq     => exact ho.pop hq
  case setParam hq =>
    obtain ⟨hh, hw, hs, hc⟩ := ho
    have ⟨hh, hd, hk, hn⟩ := hh.setParam hq
    exact ⟨xs, hh, hk.trans (hw.trans hn.symm), hs, hd ▸ hc⟩
  case shutdown =>
    obtain ⟨hh, hw, hs, hc⟩ := ho
    refine ⟨xs, ?_, wakeSet_wakeUpdate, hs, ?_⟩
    · refine Holds.wakeUpdate ⟨hh.chain, hh.tail, hh.qlen, hh.qbytes, ?_, ?_, ?_, ?_⟩
      exacts [hh.length_le, hh.bytes_le, hh.maxLength, hh.maxSize]
    · rw [shutdownRecv, wakeUpdate_queueDrops]
      exact hc

abbrev Run : Log → Log → Prop :=
  Relation.ReflTransGen Step

theorem Run.ok {s : Log} (hr : Run .opened s) : ∃ xs, s.Ok xs := by
  induction hr
  case refl         => exact ⟨[], holds_opened, rfl, .refl _, rfl⟩
  case tail hs ih   =>
    have ⟨_, ho⟩ := ih
    exact hs.ok ho

-- As long as the counter has not wrapped around, no entry is lost.
theorem Log.Ok.count_eq {s : Log} (ho : s.Ok xs) (hl : s.pushed.length < 2 ^ 64) :
    s.pushed.length = s.returned.length + xs.length + s.queue.queueDrops.toNat := by
  have hs := ho.order.length_le
  have hc := congrArg BitVec.toNat ho.count
  simp only [BitVec.toNat_add, BitVec.toNat_ofNat] at hc
  simp only [List.length_append, List.length_map] at hs
  omega

-- After any run of a freshly opened handle the queue is a list whose length, size and end are what
-- the handle says, that respects the limits, and that has not lost or reordered anything. What is
-- popped is the first entry that has not expired.
theorem queue_invariant {s : Log} (hr : Run .opened s) : ∃ xs : List (Nat × Entry),
    Chain s.queue.heap s.queue.qhead xs ∧
    s.queue.qlen.toNat = xs.length ∧
    s.queue.qbytes.toNat = (xs.map (·.2.len)).sum ∧
    s.queue.qtail = xs.getLast?.map Prod.fst ∧
    (s.queue.qtail = none ↔ s.queue.qhead = none) ∧
    s.queue.qlen.toNat ≤ 16384 ∧
    s.queue.qbytes.toNat ≤ 33554432 ∧
    (s.queue.wakeSet ↔ s.queue.qhead ≠ none ∨ s.queue.shutRecv) ∧
    (s.returned ++ xs.map Prod.snd).Sublist s.pushed ∧
    BitVec.ofNat 64 s.pushed.length =
      .ofNat 64 s.returned.length + .ofNat 64 xs.length + s.queue.queueDrops ∧
    (s.pushed.length < 2 ^ 64 →
      s.pushed.length = s.returned.length + xs.length + s.queue.queueDrops.toNat) ∧
    (∀ p e, p ∉ s.queue.heap → (s.queue.push true p e).isSome) ∧
    ∀ now, ∃ q', s.queue.pop true now =
      some ((xs.map Prod.snd).find? fun e => !expired s.queue.queueTime now e, q') := by
  have ⟨xs, ho⟩ := hr.ok
  have ⟨hh, hw, hs, hc⟩ := ho
  refine ⟨xs, hh.chain, hh.qlen, hh.qbytes, hh.tail, hh.tail_none_iff, ?_, ?_, ?_, hs, hc,
    ho.count_eq, fun p e hp => ?_, fun now => ?_⟩
  · exact hh.qlen ▸ hh.length_le
  · exact hh.qbytes ▸ hh.bytes_le
  · rw [hw]
    simp [want, Option.isSome_iff_ne_none]
  · have ⟨_, hq, _⟩ := hh.push hp true e
    simp [hq]
  · have ⟨q', hq, _⟩ := hh.pop true now
    exact ⟨_, head_live ▸ hq⟩

-- A packet of `n` bytes that has been captured at the given time.
def packetAt (timestamp : Int) (n : Nat) (hn : n < 2 ^ 32) : Entry where
  addr := {
    timestamp   := timestamp
    layer       := .network
    event       := 0
    sniffed     := false
    outbound    := true
    loopback    := false
    impostor    := false
    ipv6        := false
    ipChecksum  := true
    tcpChecksum := true
    udpChecksum := true
    network     := ⟨2, 0⟩
    flow        := ⟨0, 0, 0, .zero, .zero, 0, 0, 0⟩
    socket      := ⟨0, 0, 0, .zero, .zero, 0, 0, 0⟩
    reflect     := ⟨0, 0, .network, 0, 0⟩
    stash       := none }
  data   := .replicate n 0
  len_lt := by simpa using hn

def pushedLog : Log where
  queue    := (opened.push true 7 (packetAt 0 40 (by decide))).get rfl
  pushed   := [packetAt 0 40 (by decide)]
  returned := []

def poppedLog : Log where
  queue    := ((pushedLog.queue.pop true 1000).get rfl).2
  pushed   := [packetAt 0 40 (by decide)]
  returned := [packetAt 0 40 (by decide)]

theorem queue_invariant_popped : poppedLog.queue.queueDrops.toNat = 0 ∧
    (poppedLog.queue.wakeSet ↔ poppedLog.queue.qhead ≠ none ∨ poppedLog.queue.shutRecv) := by
  have s₁ : Step .opened pushedLog := .push (p := 7) (by decide) rfl
  have hp : pushedLog.queue.pop true 1000 = some (some (packetAt 0 40 (by decide)), poppedLog.queue) :=
    rfl
  have s₂ : Step pushedLog poppedLog := .pop hp
  have ⟨xs, _, _, _, _, _, _, _, hw, _⟩ := queue_invariant (.tail (.single s₁) s₂)
  exact ⟨rfl, hw⟩

end Handle.Queue
