import EbpfDivert.Handle.Close

namespace Handle.Close

open Threads
open Function (update)

variable {T : Type}
variable {es : List (T × Event)} {c c' : State T} {t t' : T} {e : Event} {g g' : Guard} {s : Pc}
variable {a : T × Event}

theorem handleEnter_eq_some (h : handleEnter g = some g') :
    g.closing = false ∧ g' = { g with inflight := g.inflight + 1 } := by
  cases hc : g.closing
  case true  => simp [handleEnter, hc] at h
  case false =>
    simp only [handleEnter, hc, Bool.false_eq_true, ↓reduceIte, Option.some.injEq] at h
    exact ⟨rfl, hc ▸ h.symm⟩

theorem startClosing_eq_some (h : startClosing g = some g') :
    g.closing = false ∧ g' = { g with closing := true } := by
  cases hc : g.closing
  case true  => simp [startClosing, hc] at h
  case false =>
    simp only [startClosing, hc, Bool.false_eq_true, ↓reduceIte, Option.some.injEq] at h
    exact ⟨rfl, h.symm⟩

@[simp]
theorem closing_handleLeave : (handleLeave g).closing = g.closing := by
  rw [handleLeave]
  split <;> rfl

@[simp]
theorem freed_handleLeave : (handleLeave g).freed = g.freed := by
  rw [handleLeave]
  split <;> rfl

@[simp]
theorem inflight_handleLeave : (handleLeave g).inflight = g.inflight - 1 := by
  rw [handleLeave]
  split <;> rfl

-- The last call to leave wakes the closer.
theorem woken_handleLeave (hc : g.closing) (hw : (handleLeave g).woken = false) :
    g.woken = false ∧ g.inflight ≠ 1 := by
  simp only [handleLeave, hc, and_true] at hw
  split at hw
  case isTrue  => simp at hw
  case isFalse h => exact ⟨hw, by omega⟩

def times (e : Event) (es : List (T × Event)) : Nat :=
  es.countP (·.2 = e)

@[simp]
theorem times_nil : times e ([] : List (T × Event)) = 0 := rfl

@[simp]
theorem times_cons {e' : Event} :
    times e ((t, e') :: es) = times e es + if e' = e then 1 else 0 := by
  simp [times, List.countP_cons]

theorem times_pos_iff : 0 < times e es ↔ ∃ t, (t, e) ∈ es := by
  simp [times, List.countP_pos_iff]

-- Who closes is in the trace, sleeps only while there are calls to wait for, and has none to wait
-- for once it is behind the loop.
def Placed (es : List (T × Event)) (g : Guard) (t : T) : Pc → Prop
  | .idle | .body => True
  | .closer       => (t, .close) ∈ es
  | .asleep       => (t, .close) ∈ es ∧ (g.woken = false → 0 < g.inflight)
  | .drained      => (t, .close) ∈ es ∧ g.inflight = 0

-- Others do not displace a thread: once it is closing, no call can start and the last one wakes it.
theorem Placed.of_run {l l' : Pc} (h : Placed es g t s) (hc : inClose s → g.closing)
    (hr : Run e g l g' l') (hi : 0 ≤ g'.inflight) : Placed (a :: es) g' t s := by
  have hm {b : T × Event} : b ∈ es → b ∈ a :: es := List.mem_cons_of_mem a
  cases s
  case idle   => trivial
  case body   => trivial
  case closer => exact hm h
  case asleep =>
    obtain ⟨h, hw⟩ := h
    refine ⟨hm h, fun hw' => ?_⟩
    have hc := hc (.inr <| .inl rfl)
    cases hr
    case enter he => simp [handleEnter, hc] at he
    case close he => simp [startClosing, hc] at he
    case leave =>
      have ⟨hw₀, hn⟩ := woken_handleLeave hc hw'
      have := hw hw₀
      rw [inflight_handleLeave]
      omega
    case sleep hp => exact hp
    all_goals exact hw hw'
  case drained =>
    obtain ⟨h, hz⟩ := h
    refine ⟨hm h, ?_⟩
    have hc := hc (.inr <| .inr rfl)
    cases hr
    case enter he => simp [handleEnter, hc] at he
    case close he => simp [startClosing, hc] at he
    case leave =>
      rw [inflight_handleLeave] at hi
      omega
    all_goals exact hz

variable [Fintype T]

-- Every accepted close is still running or has freed the handle.
structure Counts (es : List (T × Event)) (c : State T) : Prop where
  inflight : c.shared.inflight = count inBody c.pc
  closes   : times .close es = if c.shared.closing then 1 else 0
  frees    : times .free es = if c.shared.freed then 1 else 0
  closers  : count inClose c.pc + times .free es = times .close es

theorem Counts.opened : Counts [] (opened T) where
  inflight := by simp [Close.opened, inBody, count]
  closes   := rfl
  frees    := rfl
  closers  := by simp [Close.opened, inClose, count]

theorem Counts.closing (h : Counts es c) (ht : inClose (c.pc t)) : c.shared.closing := by
  have hp := count_pos ht
  have hc := h.closers
  have hs := h.closes
  cases hg : c.shared.closing
  case true  => rfl
  case false =>
    simp only [hg, Bool.false_eq_true, ↓reduceIte] at hs
    omega

theorem Counts.step [DecidableEq T] (h : Counts es c) (hr : Run e c.shared (c.pc t) g s) :
    Counts ((t, e) :: es) ⟨g, update c.pc t s⟩ := by
  have ⟨hi, hc, hf, hl⟩ := h
  generalize hp : c.pc t = l at hr
  generalize c.shared = g₀ at *
  have hb := count_update (p := inBody) (l := s) hp
  have hd := count_update (p := inClose) (l := s) hp
  cases hr
  case enter he =>
    obtain ⟨hg, rfl⟩ := handleEnter_eq_some he
    simp [inBody, inClose] at hb hd
    exact ⟨by simp [hi, hb], by simp [hc], by simp [hf], by simp [hd, hl]⟩
  case close he =>
    obtain ⟨hg, rfl⟩ := startClosing_eq_some he
    simp [inBody, inClose, hg] at hb hd hc
    exact ⟨by simp [hi, hb], by simp [hc], by simp [hf], by simp [hd]; omega⟩
  all_goals simp [inBody, inClose] at hb hd
  case leave => exact ⟨by simp [hi]; omega, by simp [hc], by simp [hf], by simp [hd, hl]⟩
  case free =>
    have hle : times .close es ≤ 1 := by rw [hc]; split <;> omega
    have hz : times .free es = 0 := by omega
    exact ⟨by simp [hi, hb], by simp [hc], by simp [hz], by simp; omega⟩
  all_goals exact ⟨by simp [hi, hb], by simp [hc], by simp [hf], by simp [hd, hl]⟩

structure Inv (es : List (T × Event)) (c : State T) : Prop where
  counts : Counts es c
  placed : ∀ t, Placed es c.shared t (c.pc t)
  freer  : ∀ t, (t, .free) ∈ es → (t, .close) ∈ es
  freed  : c.shared.freed → c.shared.inflight = 0

theorem Inv.opened : Inv [] (opened T) :=
  ⟨.opened, fun _ => trivial, by simp, fun _ => rfl⟩

variable [DecidableEq T]

theorem Inv.step (h : Inv es c) (hr : Run e c.shared (c.pc t) g s) :
    Inv ((t, e) :: es) ⟨g, update c.pc t s⟩ := by
  have hn := h.counts.step hr
  have hi : 0 ≤ g.inflight := by
    have : g.inflight = _ := hn.inflight
    omega
  have hz : 0 ≤ c.shared.inflight := by
    rw [h.counts.inflight]
    omega
  have hp := h.placed t
  constructor
  case counts => exact hn
  case placed =>
    rw [Function.forall_update_iff _ fun t' l => Placed ((t, e) :: es) g t' l]
    refine ⟨?_, fun t' _ => (h.placed t').of_run h.counts.closing hr hi⟩
    generalize c.pc t = l at hr hp
    cases hr
    case close => exact List.mem_cons_self
    case sleep hl => exact ⟨List.mem_cons_of_mem _ hp, fun _ => hl⟩
    case wake => exact List.mem_cons_of_mem _ hp.left
    case drain hl => exact ⟨List.mem_cons_of_mem _ hp, by omega⟩
    all_goals trivial
  case freer =>
    intro t' ht'
    refine List.mem_cons_of_mem _ ?_
    rcases List.mem_cons.mp ht' with heq | hm
    case inr => exact h.freer t' hm
    case inl =>
      cases heq
      generalize c.pc t = l at hr hp
      cases hr
      exact hp.left
  case freed =>
    have hf := h.freed
    generalize c.pc t = l at hr hp
    cases hr
    case enter hf' he =>
      obtain ⟨-, rfl⟩ := handleEnter_eq_some he
      simp [hf']
    case close hf' he =>
      obtain ⟨-, rfl⟩ := startClosing_eq_some he
      exact hf
    case leave =>
      intro hg
      have hf := hf (freed_handleLeave ▸ hg)
      rw [inflight_handleLeave] at hi
      omega
    case free => exact fun _ => hp.right
    all_goals exact hf

theorem Inv.of_trace (ht : Trace Run (Close.opened T) es c) : Inv es c :=
  ht.invariant .opened fun _ _ _ _ _ _ => .step

-- What closing a handle promises to the calls that use it.
structure Guarded (es : List (T × Event)) (c : State T) : Prop where
  inflight     : c.shared.inflight = count inBody c.pc
  frees_le     : times .free es ≤ 1
  closes_le    : times .close es ≤ 1
  freer        : ∀ t, (t, .free) ∈ es → (t, .close) ∈ es
  closing      : c.shared.closing ↔ ∃ t, (t, .close) ∈ es
  free_drained : ∀ t c', Step Run (t, .free) c c' → count inBody c.pc = 0
  no_body      : c.shared.closing → ∀ t c', ¬Step Run (t, .enter) c c'
  no_close     : c.shared.closing → ∀ t c', ¬Step Run (t, .close) c c'
  refused      : ∀ t c', Step Run (t, .closeRefused) c c' → c' = c
  freed_idle   : c.shared.freed → ∀ t, c.pc t = .idle

theorem guarded_of_trace (ht : Trace Run (opened T) es c) : Guarded es c := by
  have ⟨⟨hi, hc, hf, hl⟩, hp, hw, hz⟩ := Inv.of_trace ht
  have hle : times .close es ≤ 1 := by rw [hc]; split <;> omega
  constructor
  case inflight  => exact hi
  case frees_le  => omega
  case closes_le => exact hle
  case freer     => exact hw
  case closing =>
    rw [← times_pos_iff, hc]
    cases c.shared.closing <;> simp
  case free_drained =>
    rintro t _ ⟨hr⟩
    have hp := hp t
    generalize c.pc t = l at hr hp
    cases hr
    have := hp.right
    omega
  case no_body =>
    rintro hg t _ ⟨hr⟩
    generalize c.pc t = l at hr
    cases hr
    case enter he => simp [handleEnter, hg] at he
  case no_close =>
    rintro hg t _ ⟨hr⟩
    generalize c.pc t = l at hr
    cases hr
    case close he => simp [startClosing, hg] at he
  case refused =>
    rintro t _ ⟨hr⟩
    generalize hl : c.pc t = l at hr
    cases hr
    rw [← hl, Function.update_eq_self]
  case freed_idle =>
    intro hg t
    have hb : count inBody c.pc = 0 := by
      have := hz hg
      omega
    have hn : count inClose c.pc = 0 := by
      rw [hg] at hf
      simp only [↓reduceIte] at hf
      omega
    have hb := count_eq_zero.mp hb t
    have hn := count_eq_zero.mp hn t
    cases hs : c.pc t <;> simp_all [inBody, inClose]

-- A call is in its body when the handle is closed from another thread.
theorem guarded_of_trace_closed : ∃ (es : List (Bool × Event)) (c : State Bool),
    Trace Run (opened Bool) es c ∧ times .sleep es = 1 ∧ times .free es = 1 ∧ Guarded es c := by
  have h : Trace Run (opened Bool) [] (opened Bool) := .nil
  have h := h.cons (.mk (t := false) (.enter rfl rfl))
  have h := h.cons (.mk (t := true) (.close rfl rfl))
  have h := h.cons (.mk (t := true) (.sleep (by decide)))
  have h := h.cons (.mk (t := false) .leave)
  have h := h.cons (.mk (t := true) .wake)
  have h := h.cons (.mk (t := true) (.drain (by decide)))
  have h := h.cons (.mk (t := true) .free)
  exact ⟨_, _, h, rfl, rfl, guarded_of_trace h⟩

end Handle.Close
