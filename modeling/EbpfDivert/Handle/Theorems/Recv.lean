import EbpfDivert.Handle.Recv
import EbpfDivert.Handle.Theorems.Queue

open Linked

namespace Handle

variable {q q' : Queue} {es : List Entry} {e : Entry} {fdOk : Bool} {now : Int}

namespace Queue

-- What is in the queue, no matter where.
def Contents (q : Queue) (es : List Entry) : Prop :=
  ∃ xs, q.Holds xs ∧ xs.map Prod.snd = es

-- An entry is queued unless one of the limits is reached.
def enter (q : Queue) (es : List Entry) (e : Entry) : List Entry :=
  if es.length < q.queueLength.toNat ∧ (es.map Entry.len).sum + e.len ≤ q.queueSize.toNat then
    es ++ [e]
  else es

theorem Frame.enter (hf : Frame q q') : q'.enter = q.enter := by
  funext es e
  rw [Queue.enter, Queue.enter, hf.queueLength, hf.queueSize]

theorem alloc_not_mem {heap : Heap Entry} : alloc heap ∉ heap := by
  intro hm
  have hl : ∀ ks : List Nat, ∀ k ∈ ks, k ≤ ks.foldr max 0 := by
    intro ks
    induction ks
    case nil          => simp
    case cons k ks ih => simpa using fun k' hk => Nat.le_trans (ih k' hk) (Nat.le_max_right ..)
  exact absurd (hl heap.keys _ hm) (Nat.not_succ_le_self _)

theorem Contents.push (hc : q.Contents es) (fdOk : Bool) (e : Entry) :
    ∃ q', q.push fdOk (alloc q.heap) e = some q' ∧ q'.Contents (q.enter es e) ∧ Frame q q' := by
  obtain ⟨xs, hh, rfl⟩ := hc
  have ⟨q', hp, hd⟩ := hh.push alloc_not_mem fdOk e
  have hb : ((xs.map Prod.snd).map Entry.len).sum = bytes xs := by simp [bytes, Function.comp_def]
  refine ⟨q', hp, ?_⟩
  rw [enter, hb, List.length_map]
  cases hd
  case dropped ha =>
    rw [if_neg ha]
    exact ⟨⟨xs, hh.dropped, rfl⟩, rfl, rfl, rfl, rfl⟩
  case linked ha hh hf _ =>
    rw [if_pos ha]
    exact ⟨⟨_, hh.wakeUpdate, by simp⟩, hf.wakeUpdate⟩

theorem Contents.consumeRing (hc : q.Contents es) (fdOk : Bool) (arrived : List Entry) :
    ∃ q', consumeRing fdOk arrived q = some q' ∧ q'.Contents (arrived.foldl q.enter es) ∧
      Frame q q' := by
  induction arrived generalizing q es
  case nil => exact ⟨q, rfl, hc, .refl⟩
  case cons e arrived ih =>
    have ⟨q₁, hp, hc, hf⟩ := hc.push fdOk e
    have ⟨q₂, hr, hc, hf'⟩ := ih hc
    refine ⟨q₂, ?_, hf.enter ▸ hc, hf.trans hf'⟩
    rw [Handle.consumeRing, List.foldlM_cons, hp]
    exact hr

-- The first records of a new handle.
theorem contents_arrived {fdOk : Bool} {arrived : List Entry}
    (h : Handle.consumeRing fdOk arrived .opened = some q) :
    q.Contents (arrived.foldl Queue.opened.enter []) := by
  have ho : Queue.opened.Contents [] := ⟨[], holds_opened, rfl⟩
  have ⟨q', hq, hc, _⟩ := ho.consumeRing fdOk arrived
  rw [h] at hq
  cases hq
  exact hc

theorem Contents.pop (hc : q.Contents es) (fdOk : Bool) (now : Int) :
    ∃ q', q.pop fdOk now = some ((es.dropWhile (expired q.queueTime now)).head?, q') ∧
      q'.Contents (es.dropWhile (expired q.queueTime now)).tail ∧ Frame q q' := by
  obtain ⟨xs, hh, rfl⟩ := hc
  have ⟨q', hp, hd⟩ := hh.pop fdOk now
  have hl : (xs.map Prod.snd).dropWhile (expired q.queueTime now) =
      (live q.queueTime now xs).map Prod.snd := by
    rw [List.dropWhile_map]
    rfl
  rw [hl, List.head?_map]
  exact ⟨_, hp, ⟨_, hd.holds.wakeUpdate, List.map_tail⟩, hd.frame.wakeUpdate⟩

theorem Contents.qhead_nil (hc : q.Contents []) : q.qhead = none := by
  obtain ⟨xs, hh, he⟩ := hc
  exact hh.chain.eq_nil_iff.mp (List.map_eq_nil_iff.mp he)

theorem Contents.qhead_cons (hc : q.Contents (e :: es)) :
    ∃ p next, q.qhead = some p ∧ q.heap.lookup p = some ⟨e, next⟩ := by
  obtain ⟨xs, hh, he⟩ := hc
  obtain ⟨⟨p, _⟩, xs, rfl, rfl, rfl⟩ := List.map_eq_cons_iff.mp he
  have ⟨hp, next, hl, _⟩ := hh.chain
  exact ⟨p, next, hp, hl⟩

theorem foldl_enter_sublist {arrived : List Entry} :
    (arrived.foldl q.enter es).Sublist (es ++ arrived) := by
  induction arrived generalizing es
  case nil => simp
  case cons e arrived ih =>
    refine ih.trans ?_
    rw [enter]
    split_ifs
    · simp
    · exact (List.sublist_cons_self ..).append_left _

-- The first packet that a call gets, and what is left in the queue then.
def first (q : Queue) : List Round → List Entry → Option (Entry × List Entry)
  | [], _          => none
  | w :: waits, es => match es.dropWhile (expired q.queueTime w.now) with
    | e :: rest => some (e, rest)
    | []        => if q.shutRecv && !w.consumed then none
      else q.first waits (w.arrived.foldl q.enter [])

-- What stands at the head of the queue in each of the following rounds, and what would be taken.
def offers (q : Queue) : Nat → Stream' Round → List Entry → List (Entry × Entry)
  | 0, _, _           => []
  | n + 1, rounds, es =>
    let es := rounds.head.arrived.foldl q.enter es
    match es, es.dropWhile (expired q.queueTime rounds.head.now) with
    | front :: _, e :: rest => (front, e) :: q.offers n rounds.tail rest
    | _, _                  => []

theorem Frame.first (hf : Frame q q') : q'.first = q.first := by
  funext waits es
  induction waits generalizing es
  case nil          => rfl
  case cons w ws ih => simp only [Queue.first, hf.queueTime, hf.shutRecv, hf.enter, ih]

theorem Frame.offers (hf : Frame q q') : q'.offers = q.offers := by
  funext n rounds es
  induction n generalizing rounds es
  case zero      => rfl
  case succ n ih => simp only [Queue.offers, hf.queueTime, hf.enter, ih]

-- What waiting for the first packet ends with.
inductive Waited (q : Queue) (waits : List Round) (es : List Entry) :
    Except RecvError Entry × Queue → Prop
  | ok {e rest q'} (hf : q.first waits es = some (e, rest)) (hc : q'.Contents rest) (hq : Frame q q') :
    Waited q waits es (.ok e, q')
  | error {err q'} (hf : q.first waits es = none) : Waited q waits es (.error err, q')

theorem Contents.nextEntry (hc : q.Contents es) (fdOk : Bool) (waits : List Round) :
    ∃ res, nextEntry fdOk waits q = some res ∧ Waited q waits es res := by
  induction waits generalizing q es
  case nil => exact ⟨_, rfl, .error rfl⟩
  case cons w waits ih =>
    have ⟨q₁, hp, hc, hf⟩ := hc.pop fdOk w.now
    rw [Handle.nextEntry, hp]
    cases hd : es.dropWhile (expired q.queueTime w.now)
    case cons e rest =>
      rw [hd] at hc
      exact ⟨_, rfl, .ok (by simp [Queue.first, hd]) hc hf⟩
    case nil =>
      simp only [Option.bind_eq_bind, Option.bind_some, List.head?_nil, hf.shutRecv]
      by_cases hs : q.shutRecv && !w.consumed
      case pos =>
        rw [if_pos hs]
        exact ⟨_, rfl, .error (by simp [Queue.first, hd, hs])⟩
      case neg =>
        rw [hd] at hc
        have ⟨q₂, hr, hc, hf'⟩ := hc.consumeRing fdOk w.arrived
        have ⟨res, hn, hw⟩ := ih hc
        have he : q.first (w :: waits) es = q₂.first waits (w.arrived.foldl q₁.enter []) := by
          rw [(hf.trans hf').first, hf.enter, Queue.first, hd]
          simp only [hs]
          rfl
        rw [if_neg hs, hr]
        refine ⟨res, hn, ?_⟩
        cases hw
        case ok hq hc hf'' => exact .ok (he.trans hq) hc ((hf.trans hf').trans hf'')
        case error hq      => exact .error (he.trans hq)

end Queue

-- Every packet that is taken has room behind those before it if the one at the head of the queue
-- has, in 32 bits.
def HasRoom (size : Nat) : Nat → List (Entry × Entry) → Prop
  | _, []                    => True
  | used, (front, e) :: rest => (used + front.len) % 2 ^ 32 ≤ size →
      used + e.len ≤ size ∧ HasRoom size (used + e.len) rest

-- How the loop goes on in a round: there is nothing to take, what is at the head has no room, or a
-- packet is taken.
inductive Looped (q : Queue) (pkt : Option Buffer) :
    Nat → Stream' Round → List Entry → Batch → List (Nat × Entry) → Batch → Prop
  | full {rounds es b} : Looped q pkt 0 rounds es b [] b
  | none {n rounds es b q'} (ho : q.offers (n + 1) rounds es = []) :
    Looped q pkt (n + 1) rounds es b [] { b with queue := q' }
  | skip {n rounds es b q' front e rest} (ho : q.offers (n + 1) rounds es = (front, e) :: rest)
    (hs : ∃ buf ∈ pkt, buf.len < (b.used + front.len) % 2 ^ 32) :
    Looped q pkt (n + 1) rounds es b [] { b with queue := q' }
  | take {n rounds es b b' q' front e rest new}
    (ho : q.offers (n + 1) rounds es = (front, e) :: q.offers n rounds.tail rest)
    (hs : ∀ buf ∈ pkt, (b.used + front.len) % 2 ^ 32 ≤ buf.len)
    (ht : (e :: rest).Sublist (es ++ rounds.head.arrived))
    (hl : Looped q pkt n rounds.tail rest (b.copy e q') new b') :
    Looped q pkt (n + 1) rounds es b ((b.used, e) :: new) b'

variable {pkt : Option Buffer} {buf : Buffer} {n : Nat} {rounds : Stream' Round} {b b' : Batch}
variable {new : List (Nat × Entry)} {queued : List Entry}

theorem recvLoop_looped (fdOk : Bool) (pkt : Option Buffer) (n : Nat) (rounds : Stream' Round)
    (b : Batch) (hc : b.queue.Contents es) (hf : q.Frame b.queue) :
    ∃ new b', recvLoop fdOk pkt n rounds b = some b' ∧ Looped q pkt n rounds es b new b' := by
  induction n generalizing rounds b es
  case zero => exact ⟨_, b, rfl, .full⟩
  case succ n ih =>
    have ⟨q₁, hr, hc, hf₁⟩ := hc.consumeRing fdOk rounds.head.arrived
    have hsub : (rounds.head.arrived.foldl q.enter es).Sublist _ := Queue.foldl_enter_sublist
    rw [recvLoop, hr]
    rw [hf.enter] at hc
    cases ha : rounds.head.arrived.foldl q.enter es
    case nil =>
      rw [ha] at hc
      simp only [Option.bind_eq_bind, Option.bind_some, hc.qhead_nil]
      exact ⟨_, _, rfl, .none (by simp [Queue.offers, ha])⟩
    case cons front es' =>
      rw [ha] at hc hsub
      have ⟨p, next, hh, hl⟩ := hc.qhead_cons
      have ⟨q₂, hp, hc₂, hf₂⟩ := hc.pop fdOk rounds.head.now
      rw [(hf.trans hf₁).queueTime] at hp hc₂
      simp only [Option.bind_eq_bind, Option.bind_some, hh, hl, hp]
      by_cases hs : pkt.any (·.len < (b.used + front.len) % 2 ^ 32)
      case pos =>
        rw [if_pos hs]
        refine ⟨[], _, rfl, ?_⟩
        cases hd : (front :: es').dropWhile (Queue.expired q.queueTime rounds.head.now)
        case nil  => exact .none (by simp only [Queue.offers, ha, hd])
        case cons =>
          refine .skip (by simp only [Queue.offers, ha, hd]; rfl) ?_
          simpa [Option.any_eq_true] using hs
      case neg =>
        rw [if_neg hs]
        cases hd : (front :: es').dropWhile (Queue.expired q.queueTime rounds.head.now)
        case nil         => exact ⟨_, _, rfl, .none (by simp only [Queue.offers, ha, hd])⟩
        case cons e rest =>
          have ht : (e :: rest).Sublist (es ++ rounds.head.arrived) :=
            .trans (hd ▸ (List.dropWhile_suffix _).sublist) hsub
          rw [hd] at hc₂
          have ⟨new, b', hb, hl⟩ := ih rounds.tail (b.copy e q₂) hc₂ ((hf.trans hf₁).trans hf₂)
          have ho : q.offers (n + 1) rounds es = (front, e) :: q.offers n rounds.tail rest := by
            simp only [Queue.offers, ha, hd]
          refine ⟨_, b', hb, .take ho ?_ ht hl⟩
          simpa [Option.any_eq_true] using hs

theorem Looped.taken (hl : Looped q pkt n rounds es b new b') : b'.taken = b.taken ++ new := by
  induction hl
  case take ih => simpa [Batch.copy] using ih
  all_goals simp

theorem Looped.addrs (hl : Looped q pkt n rounds es b new b') :
    b'.addrs = b.addrs ++ new.map (·.2.addr) := by
  induction hl
  case take ih => simpa [Batch.copy] using ih
  all_goals simp

theorem Looped.order (hl : Looped q pkt n rounds es b new b') :
    (new.map Prod.snd).Sublist (es ++ (rounds.take n).flatMap (·.arrived)) := by
  induction hl
  case take n rounds es _ _ _ _ e rest new _ _ ht _ ih =>
    change List.Sublist _ (es ++ (rounds.head :: rounds.tail.take n).flatMap _)
    rw [List.flatMap_cons, ← List.append_assoc]
    have hs : (e :: new.map Prod.snd).Sublist (e :: rest ++ (rounds.tail.take n).flatMap _) :=
      ih.cons_cons e
    exact hs.trans (ht.append_right _)
  all_goals simp

-- What the loop takes is inside of the buffer if and only if what it is offered has room.
theorem Looped.inside_iff (hl : Looped q (some buf) n rounds es b new b') :
    (∀ x ∈ new, x.1 + x.2.len ≤ buf.len) ↔ HasRoom buf.len b.used (q.offers n rounds es) := by
  induction hl
  case full    => simp [Queue.offers, HasRoom]
  case none ho => simp [ho, HasRoom]
  case skip ho hs =>
    obtain ⟨_, hb, hs⟩ := hs
    cases hb
    rw [ho, HasRoom]
    exact iff_of_true (by simp) fun h => absurd h (Nat.not_le.mpr hs)
  case take b b' q' front e rest new ho hs ht hl ih =>
    rw [ho, HasRoom, List.forall_mem_cons, imp_iff_right (hs buf rfl)]
    refine and_congr_right fun hr => ?_
    have hlt : b.used + e.len < 2 ^ 32 := Nat.lt_of_le_of_lt hr buf.len_lt
    rw [ih, Batch.copy, Nat.mod_eq_of_lt hlt]

theorem memcpy_append {done src : Bytes} (hd : done.length = b.used) :
    memcpy (done ++ buf.bytes.drop b.used) b.used src =
      done ++ src ++ buf.bytes.drop (b.used + src.length) := by
  have ht : (done ++ buf.bytes.drop b.used).take b.used = done := List.take_left' hd
  have hr : (done ++ buf.bytes.drop b.used).drop (b.used + src.length) =
      buf.bytes.drop (b.used + src.length) := by
    rw [← List.drop_drop, List.drop_left' hd, List.drop_drop]
  rw [memcpy, ht, hr]

-- As long as everything is inside of the buffer, it holds the packets one after the other.
theorem Looped.bytes (hl : Looped q (some buf) n rounds es b new b')
    (hi : ∀ x ∈ new, x.1 + x.2.len ≤ buf.len) {done : Bytes} (hd : done.length = b.used)
    (hb : b.buf = some (done ++ buf.bytes.drop b.used)) :
    b'.buf = some (done ++ new.flatMap (·.2.data) ++
      buf.bytes.drop (done.length + (new.flatMap (·.2.data)).length)) := by
  induction hl generalizing done
  case take b b' q' front e rest new ho hs ht hl ih =>
    have ⟨hr, hi⟩ := List.forall_mem_cons.mp hi
    have hlt : b.used + e.len < 2 ^ 32 := Nat.lt_of_le_of_lt hr buf.len_lt
    have hu : (b.copy e q').used = b.used + e.len := Nat.mod_eq_of_lt hlt
    have hb' : (b.copy e q').buf = some (done ++ e.data ++ buf.bytes.drop (b.copy e q').used) := by
      rw [hu, Batch.copy, hb, Option.map_some, memcpy_append hd]
      rfl
    have hd' : (done ++ e.data).length = (b.copy e q').used := by simp [hu, hd, Entry.len]
    simpa [Nat.add_assoc] using ih hi hd' hb'
  all_goals simpa [hd] using hb

def copied (err : Option RecvError) (b : Batch) : List (Nat × Entry) :=
  if err.isNone then b.taken else []

-- What a call must not do: write beyond the end of the buffer, mix up the packets, or take a packet
-- that there is no room for.
structure Batch.Safe (pkt : Option Buffer) (queued : List Entry) (err : Option RecvError) (b : Batch) :
    Prop where
  inside : ∀ buf ∈ pkt, ∀ x ∈ copied err b, x.1 + x.2.len ≤ buf.len
  bytes  : ∀ buf ∈ pkt, b.buf = some ((copied err b).flatMap (·.2.data) ++
    buf.bytes.drop ((copied err b).flatMap (·.2.data)).length)
  addrs  : b.addrs = (copied err b).map (·.2.addr)
  order  : ((copied err b).map Prod.snd).Sublist queued
  left   : ∀ buf ∈ pkt, ∀ x ∈ b.taken, x.1 + x.2.len ≤ buf.len

theorem Batch.safe_of_nil {err : Option RecvError} (ht : b.taken = []) (ha : b.addrs = [])
    (hb : b.buf = pkt.map (·.bytes)) : b.Safe pkt es err := by
  have hc : copied err b = [] := by simp [copied, ht]
  constructor <;> simp_all

-- What a call is offered has room.
def Roomy (pkt : Option Buffer) (addrLen : BitVec 32) (waits : List Round) (rounds : Stream' Round)
    (q : Queue) (es : List Entry) : Prop :=
  ∀ buf ∈ pkt, ∀ e rest, q.first waits es = some (e, rest) →
    e.len ≤ buf.len ∧ HasRoom buf.len e.len (q.offers (addrLen.toNat - 1) rounds rest)

theorem first_sublist {waits : List Round} {rest : List Entry}
    (hf : q.first waits es = some (e, rest)) :
    (e :: rest).Sublist (es ++ waits.flatMap (·.arrived)) := by
  induction waits generalizing es
  case nil => cases hf
  case cons w waits ih =>
    rw [Queue.first] at hf
    rw [List.flatMap_cons]
    cases hd : es.dropWhile (Queue.expired q.queueTime w.now)
    case cons e' rest' =>
      rw [hd] at hf
      cases hf
      exact .trans (hd ▸ (List.dropWhile_suffix _).sublist) (List.sublist_append_left ..)
    case nil =>
      simp only [hd] at hf
      split_ifs at hf
      have hs : (w.arrived.foldl q.enter []).Sublist _ := Queue.foldl_enter_sublist
      refine (ih hf).trans <| .trans (hs.append_right _) ?_
      exact List.sublist_append_right ..

-- The packets after the first one.
theorem recvLoop_safe_iff (hl : Looped q pkt n rounds es
    ((Batch.start pkt q').copy e q') new b') (he : ∀ buf ∈ pkt, e.len ≤ buf.len)
    (hs : (e :: es).Sublist queued) :
    b'.Safe pkt (queued ++ (rounds.take n).flatMap (·.arrived)) none ↔
      ∀ buf ∈ pkt, HasRoom buf.len e.len (q.offers n rounds es) := by
  have ht : b'.taken = (0, e) :: new := hl.taken
  have hc : copied none b' = (0, e) :: new := ht
  have ha : b'.addrs = e.addr :: new.map (·.2.addr) := hl.addrs
  have ho : ((copied none b').map Prod.snd).Sublist (queued ++ (rounds.take n).flatMap (·.arrived)) := by
    rw [hc]
    exact (hl.order.cons_cons e).trans (hs.append_right _)
  cases pkt
  case none => exact iff_of_true ⟨nofun, nofun, by simp [ha, hc], ho, nofun⟩ nofun
  case some buf =>
    have he := he buf rfl
    have hu : (0 + e.len) % 2 ^ 32 = e.len := by
      rw [Nat.zero_add]
      exact Nat.mod_eq_of_lt <| Nat.lt_of_le_of_lt he buf.len_lt
    have hi := hl.inside_iff
    simp only [Batch.copy, Batch.start, hu] at hi
    have hin : (∀ x ∈ (0, e) :: new, x.1 + x.2.len ≤ buf.len) ↔ ∀ x ∈ new, x.1 + x.2.len ≤ buf.len := by
      simp [he]
    simp only [Option.mem_def, Option.some.injEq, forall_eq']
    rw [← hi]
    constructor
    case mp =>
      intro hb x hx
      exact hb.left buf rfl x (ht ▸ .tail _ hx)
    case mpr =>
      intro hn
      have hu' : ((Batch.start (some buf) q').copy e q').used = e.data.length := hu
      have hb := hl.bytes hn hu'.symm (by rw [hu']; simp [Batch.copy, Batch.start, memcpy])
      refine ⟨?_, ?_, by simp [ha, hc], ho, ?_⟩
      · rintro _ ⟨⟩
        exact hc ▸ hin.mpr hn
      · rintro _ ⟨⟩
        simpa [hc] using hb
      · rintro _ ⟨⟩
        exact ht ▸ hin.mpr hn

-- A call stays inside of the buffer if and only if it is given too few addresses, must not receive
-- or is only offered what has room.
theorem recvEx_safe_iff (fdOk : Bool) (flags : BitVec 64) (pkt : Option Buffer)
    (addrLen : BitVec 32) (waits : List Round) (rounds : Stream' Round) (hc : q.Contents es) :
    ∃ err b, recvEx fdOk flags pkt addrLen waits rounds q = some (err, b) ∧
      (b.Safe pkt (es ++ waits.flatMap (·.arrived) ++
        (rounds.take (addrLen.toNat - 1)).flatMap (·.arrived)) err ↔
      addrLen = 0 ∨ Flags.has flags flagSendOnly ∨ Roomy pkt addrLen waits rounds q es) := by
  rw [recvEx]
  by_cases ha : addrLen = 0
  case pos => exact ⟨_, _, if_pos ha, iff_of_true (Batch.safe_of_nil rfl rfl rfl) (.inl ha)⟩
  by_cases hs : Flags.has flags flagSendOnly
  case pos =>
    rw [if_neg ha, if_pos hs]
    exact ⟨_, _, rfl, iff_of_true (Batch.safe_of_nil rfl rfl rfl) (.inr (.inl hs))⟩
  rw [if_neg ha, if_neg hs, or_iff_right ha, or_iff_right hs]
  have ⟨res, hn, hw⟩ := hc.nextEntry fdOk waits
  rw [hn]
  cases hw
  case error hf =>
    refine ⟨_, _, rfl, iff_of_true (Batch.safe_of_nil rfl rfl rfl) ?_⟩
    simp [Roomy, hf]
  case ok e rest q' hf hc' hq =>
    simp only [Option.bind_eq_bind, Option.bind_some]
    by_cases hb : pkt.any (·.len < e.len)
    case pos =>
      obtain ⟨buf, hp, hlt⟩ : ∃ buf ∈ pkt, buf.len < e.len := by simpa [Option.any_eq_true] using hb
      rw [if_pos hb]
      refine ⟨_, _, rfl, iff_of_false (fun h => ?_) fun h => ?_⟩
      · exact Nat.not_le.mpr hlt <| by simpa using h.left buf hp _ (.head _)
      · exact Nat.not_le.mpr hlt (h buf hp e rest hf).left
    case neg =>
      have he : ∀ buf ∈ pkt, e.len ≤ buf.len := by simpa [Option.any_eq_true] using hb
      have ⟨new, b, hr, hl⟩ := recvLoop_looped fdOk pkt (addrLen.toNat - 1) rounds
        ((Batch.start pkt q').copy e q') hc' hq
      rw [if_neg hb, hr]
      refine ⟨_, _, rfl, (recvLoop_safe_iff hl he (first_sublist hf)).trans ?_⟩
      simp only [Roomy, hf, Option.some.injEq, Prod.mk.injEq]
      refine forall₂_congr fun buf hp => ⟨?_, fun h => (h e rest ⟨rfl, rfl⟩).right⟩
      rintro hr _ _ ⟨rfl, rfl⟩
      exact ⟨he buf hp, hr⟩

-- Three packets, and a buffer that has room for two small ones.
def smallBuffer : Buffer where
  bytes  := .replicate 40 0
  len_lt := by decide

def firstSmall  : Entry := Queue.packetAt 0 20 (by decide)
def secondSmall : Entry := Queue.packetAt 1 20 (by decide)
def thirdLarge  : Entry := Queue.packetAt 10 60 (by decide)

def threePackets : Queue :=
  (consumeRing true [firstSmall, secondSmall, thirdLarge] .opened).get rfl

theorem contents_threePackets : threePackets.Contents [firstSmall, secondSmall, thirdLarge] :=
  Queue.contents_arrived (Option.some_get rfl).symm

-- The clock at the given time, with an empty ring.
def quiet (now : Int) : Round :=
  ⟨now, false, []⟩

theorem recvEx_safe_iff_timely : ∃ err b, recvEx true 0 (some smallBuffer) 8 [quiet 1000]
    (.const (quiet 1000)) threePackets = some (err, b) ∧
      b.Safe (some smallBuffer) [firstSmall, secondSmall, thirdLarge] err := by
  have ⟨err, b, hr, hs⟩ := recvEx_safe_iff true 0 (some smallBuffer) 8 [quiet 1000]
    (.const (quiet 1000)) contents_threePackets
  refine ⟨err, b, hr, hs.mpr <| .inr <| .inr ?_⟩
  rintro _ ⟨⟩ e rest hf
  cases hf
  refine ⟨by decide, fun _ => ⟨by decide, fun h => absurd h (by decide)⟩⟩

-- The second packet expires before it is returned, and the third one is written beyond the end of
-- the buffer.
theorem recvEx_overflows : ∃ b, recvEx true 0 (some smallBuffer) 8 [quiet 2000000000]
    (.const (quiet 2000000002)) threePackets = some (none, b) ∧
      b.taken = [(0, firstSmall), (20, thirdLarge)] ∧ smallBuffer.len < 20 + thirdLarge.len ∧
      b.buf.map List.length = some 80 :=
  ⟨_, rfl, rfl, by decide, rfl⟩

end Handle
