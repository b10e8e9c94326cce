import EbpfDivert.Handle.Drain
import EbpfDivert.Handle.Theorems.Recv

namespace Handle

variable {q q' : Queue} {xs : List Entry} {e : Option Entry} {fdOk : Bool} {now : Int}

namespace Queue

theorem Contents.qlen (h : q.Contents xs) : q.qlen.toNat = xs.length := by
  obtain ⟨ys, hh, rfl⟩ := h
  rw [hh.qlen, List.length_map]

theorem Contents.qhead_none_iff (h : q.Contents xs) : q.qhead = none ↔ q.qlen.toNat = 0 := by
  rw [h.qlen]
  cases xs
  case nil  => simp [h.qhead_nil]
  case cons =>
    obtain ⟨p, _, hp, _⟩ := h.qhead_cons
    simp [hp]

-- Popping makes the queue shorter. If there is nothing to return, it is empty afterwards.
theorem Contents.of_pop (h : q.Contents xs) (hp : q.pop fdOk now = some (e, q')) :
    (∃ ys, q'.Contents ys) ∧ q'.qlen.toNat ≤ q.qlen.toNat ∧ (e = none → q'.qlen.toNat = 0) := by
  have ⟨_, hp', hc, _⟩ := h.pop fdOk now
  rw [hp'] at hp
  cases hp
  have hl := (List.dropWhile_sublist (p := expired q.queueTime now) (l := xs)).length_le
  rw [h.qlen, hc.qlen, List.length_tail]
  refine ⟨⟨_, hc⟩, by omega, fun he => ?_⟩
  rw [List.head?_eq_none_iff.mp he]
  rfl

theorem length_le_enter {arrived : List Entry} :
    xs.length ≤ (arrived.foldl q.enter xs).length := by
  induction arrived generalizing xs
  case nil => exact Nat.le_refl _
  case cons a arrived ih =>
    refine Nat.le_trans ?_ ih
    rw [enter]
    split
    case isTrue  => simp
    case isFalse => exact Nat.le_refl _

theorem Contents.of_consumeRing {arrived : List Entry} (h : q.Contents xs)
    (hc : Handle.consumeRing fdOk arrived q = some q') :
    (∃ ys, q'.Contents ys) ∧ q.qlen.toNat ≤ q'.qlen.toNat := by
  have ⟨_, hc', hn, _⟩ := h.consumeRing fdOk arrived
  rw [hc'] at hc
  cases hc
  rw [h.qlen, hn.qlen]
  exact ⟨⟨_, hn⟩, length_le_enter⟩

end Queue

namespace Drain

open Threads
open Function (update)

variable {T : Type} [DecidableEq T] {es : List (T × Event)} {c c' c₀ : Config T Shared Pc}
variable {t t' : T} {a : Event} {s s' : Shared} {l l' : Pc}

theorem pop_balance (h : q.Contents xs) (hp : q.pop fdOk now = some (e, q')) :
    (∃ ys, q'.Contents ys) ∧ q'.qlen.toNat + surplus q q' = q.qlen.toNat + 0 := by
  have ⟨hc, hl, _⟩ := h.of_pop hp
  refine ⟨hc, ?_⟩
  rw [surplus]
  omega

theorem consume_balance (h : s.queue.Contents xs) (hc : s.consume fdOk = some s') :
    (∃ ys, s'.queue.Contents ys) ∧
      s'.queue.qlen.toNat + 0 = s.queue.qlen.toNat + surplus s'.queue s.queue := by
  obtain ⟨q, hq, he⟩ := Option.bind_eq_some_iff.mp hc
  cases he
  have ⟨hc, hl⟩ := h.of_consumeRing hq
  refine ⟨hc, ?_⟩
  dsimp only
  rw [surplus]
  omega

-- Every region accounts for the length of the queue.
theorem Run.balance (h : s.queue.Contents xs) (hr : Run a s l s' l') :
    (∃ ys, s'.queue.Contents ys) ∧
      s'.queue.qlen.toNat + a.left = s.queue.qlen.toNat + a.arrived := by
  cases hr
  case take hp _     => exact pop_balance h hp
  case miss _ hp     => exact pop_balance h hp
  case refill hc     => exact consume_balance h hc
  case moreRefill hc => exact consume_balance h hc
  case moreTake hp _ => exact pop_balance h hp
  case expired hp    => exact pop_balance h hp
  case late hc       => exact consume_balance h hc
  all_goals exact ⟨⟨xs, h⟩, rfl⟩

-- What the other threads have done since a thread last did something.
def window (t : T) : List (T × Event) → List Event
  | []            => []
  | (t', a) :: es => if t' = t then [] else a :: window t es

-- The entries that have come into the queue or left it.
def arrivals (w : List Event) : Nat := (w.map Event.arrived).sum

def departures (w : List Event) : Nat := (w.map Event.left).sum

structure Inv (es : List (T × Event)) (c : Config T Shared Pc) : Prop where
  contents : ∃ xs, c.shared.queue.Contents xs
  missed   : ∀ t, c.pc t = .missed →
    c.shared.queue.qlen.toNat + departures (window t es) = arrivals (window t es)

theorem Inv.step (h : Inv es c) (hr : Run a c.shared (c.pc t) s l) :
    Inv ((t, a) :: es) ⟨s, update c.pc t l⟩ := by
  obtain ⟨xs, hx⟩ := h.contents
  have ⟨hc, hb⟩ := hr.balance hx
  refine ⟨hc, fun t' ht' => ?_⟩
  by_cases heq : t = t'
  case pos =>
    -- The thread has just found the queue empty.
    subst heq
    dsimp only at ht' ⊢
    rw [Function.update_self] at ht'
    subst ht'
    generalize c.pc t = l₀ at hr
    cases hr
    case take hp hl     => simp at hl
    case moreTake hp hl => simp at hl
    case peek hl        => simp at hl
    case miss _ hp =>
      have ⟨_, _, hz⟩ := hx.of_pop hp
      simp [window, departures, arrivals, hz rfl]
  case neg =>
    dsimp only at ht' ⊢
    rw [Function.update_of_ne (Ne.symm heq)] at ht'
    have := h.missed t' ht'
    simp only [window, heq, ↓reduceIte, departures, arrivals, List.map_cons, List.sum_cons] at this ⊢
    omega

-- When the handle is shut down, no call is between its two looks with the knowledge of that.
structure Shut (c : Config T Shared Pc) : Prop where
  unaware  : ∀ t, c.pc t ≠ .missed
  contents : ∃ xs, c.shared.queue.Contents xs

def Drained (s : Shared) : Prop :=
  s.queue.qhead = none ∧ s.ring = []

theorem Inv.of_trace (h₀ : Shut c₀) (ht : Trace Run c₀ es c) : Inv es c :=
  ht.invariant ⟨h₀.contents, fun t ht => absurd ht (h₀.unaware t)⟩ fun _ _ _ _ _ _ => .step

-- What a call that gives up leaves behind.
theorem Inv.giveUp (h : Inv es c) (hs : Step Run (t, .giveUp) c c') :
    (Drained c'.shared ↔ c'.shared.queue.qlen.toNat = 0) ∧
      c'.shared.queue.qlen.toNat + departures (window t es) = arrivals (window t es) := by
  obtain ⟨xs, hx⟩ := h.contents
  have hm := h.missed t
  obtain ⟨hr⟩ := hs
  generalize c.pc t = l at hr hm
  cases hr
  case giveUp hr => exact ⟨by rw [Drained, and_iff_left hr, hx.qhead_none_iff], hm rfl⟩

-- A call reports the shutdown too early if another one has filled the queue from the ring meanwhile.
theorem giveUp_drained_iff (h₀ : Shut c₀) (ht : Trace Run c₀ es c)
    (hs : Step Run (t, .giveUp) c c') :
    Drained c'.shared ↔ departures (window t es) = arrivals (window t es) := by
  obtain ⟨hd, hb⟩ := (Inv.of_trace h₀ ht).giveUp hs
  rw [hd]
  omega

-- If no other call takes anything from the ring between the two looks, everything has been received.
theorem drained_of_unrefilled (h₀ : Shut c₀) (ht : Trace Run c₀ es c)
    (hs : Step Run (t, .giveUp) c c') (hw : ∀ a ∈ window t es, a.arrived = 0) : Drained c'.shared := by
  obtain ⟨hd, hb⟩ := (Inv.of_trace h₀ ht).giveUp hs
  have ha : arrivals (window t es) = 0 := List.sum_eq_zero (by simpa using hw)
  rw [hd]
  omega

-- One packet is still in the ring.
def onePacket : Config Bool Shared Pc where
  shared := ⟨{ Queue.opened with shutRecv := true, wakeSet := true }, [some firstSmall]⟩
  pc _   := .idle

theorem shut_onePacket : Shut onePacket where
  unaware  := nofun
  contents := ⟨[], [], ⟨rfl, rfl, rfl, rfl, Nat.zero_le _, Nat.zero_le _, by decide, by decide⟩, rfl⟩

-- The other thread fetches the packet between the two looks of the first one and has received it
-- before the second.
theorem giveUp_drained_iff_taken : ∃ es c c', Trace Run onePacket es c ∧
    Step Run (true, .giveUp) c c' ∧ Drained c'.shared := by
  have h : Trace Run onePacket [] onePacket := .nil
  have h := h.cons (.mk (t := true) .start)
  have h := h.cons (.mk (t := true) (.miss true 0 rfl rfl))
  have h := h.cons (.mk (t := false) .start)
  have h := h.cons (.mk (t := false) (.miss true 0 rfl rfl))
  have h := h.cons (.mk (t := false) (.refill true (by simp [onePacket]) rfl))
  have h := h.cons (.mk (t := false) (.take true 0 rfl (.inl rfl)))
  have hd := (giveUp_drained_iff shut_onePacket h (.mk (t := true) (.giveUp rfl))).mpr rfl
  exact ⟨_, _, _, h, .mk (.giveUp rfl), hd⟩

-- The other thread has not received it yet: the first one reports the shutdown with a packet in the
-- queue.
theorem giveUp_undrained : ∃ es c c', Trace Run onePacket es c ∧
    Step Run (true, .giveUp) c c' ∧ ¬Drained c'.shared := by
  have h : Trace Run onePacket [] onePacket := .nil
  have h := h.cons (.mk (t := true) .start)
  have h := h.cons (.mk (t := true) (.miss true 0 rfl rfl))
  have h := h.cons (.mk (t := false) .start)
  have h := h.cons (.mk (t := false) (.miss true 0 rfl rfl))
  have h := h.cons (.mk (t := false) (.refill true (by simp [onePacket]) rfl))
  exact ⟨_, _, _, h, .mk (.giveUp rfl), fun hd => absurd hd.left (by decide)⟩

end Drain

end Handle
