import EbpfDivert.Handle.Teardown
import EbpfDivert.Handle.Theorems.Close
import EbpfDivert.Handle.Theorems.Shutdown

namespace Handle.Teardown

open Threads
open Function (update)
open Shutdown (How At Call)

variable {T : Type} {es : List (T × Event)} {c c' : State T} {t t' : T} {e : Event}
variable {s s' : Shared} {l l' : Pc} {how : How} {hasConfig : Bool} {conf conf' : Shutdown.Shared}

-- What a call of `ebpfdivert_close` looks like if only `rlock` is considered.
def Pc.toClose : Pc → Close.Pc
  | .idle | .shutdown _ _                     => .idle
  | .body                                     => .body
  | .closing _ | .silencing | .waiting        => .closer
  | .asleep                                   => .asleep
  | .detaching | .unregistering | .freeing    => .drained

theorem Run.toClose (hr : Run e s l s' l') :
    (s'.guard = s.guard ∧ l'.toClose = l.toClose) ∨
      ∃ e', Close.Run e' s.guard l.toClose s'.guard l'.toClose := by
  cases hr
  case enter hf he        => exact .inr ⟨_, .enter hf he⟩
  case enterRefused hf he => exact .inr ⟨_, .enterRefused hf he⟩
  case leave              => exact .inr ⟨_, .leave⟩
  case close hf hc        => exact .inr ⟨_, .close hf hc⟩
  case closeRefused hf hc => exact .inr ⟨_, .closeRefused hf hc⟩
  case sleep hi           => exact .inr ⟨_, .sleep hi⟩
  case wake               => exact .inr ⟨_, .wake⟩
  case drain hi           => exact .inr ⟨_, .drain hi⟩
  case free               => exact .inr ⟨_, .free⟩
  case detach             => exact .inl ⟨rfl, by split <;> rfl⟩
  all_goals exact .inl ⟨rfl, rfl⟩

-- The calls that hold `qlock` between two steps.
def Pc.Holds : Pc → Prop
  | .shutdown _ l | .closing l => l.Locked
  | _                          => False

theorem Pc.inBody_toClose (h : Close.inBody l.toClose) : l = .body := by
  cases l <;> first | rfl | cases h

-- The calls that may hold `qlock` are the shutdowns and the closing itself.
theorem Pc.Holds.shutdown (h : l.Holds) (hc : ¬Close.inClose l.toClose) :
    ∃ how a, l = .shutdown how a := by
  cases l
  case shutdown how a => exact ⟨how, a, rfl⟩
  case closing        => exact absurd (.inl rfl) hc
  all_goals cases h

instance : DecidablePred Pc.Holds
  | .shutdown _ l | .closing l => inferInstanceAs (Decidable l.Locked)
  | .idle | .body | .silencing | .waiting | .asleep | .detaching | .unregistering | .freeing =>
    inferInstanceAs (Decidable False)

-- What a step of a shutdown means for the lock.
inductive Lock (how : How) : Bool → At → Bool → Option At → Prop
  | take {l : At} (hl : l.Locked) : Lock how false .locking true (some l)
  | keep {b : Bool} {l l' : At} (hl : l.Locked) (hl' : l'.Locked) : Lock how b l b (some l')
  | release {b : Bool} : Lock how b .waking false how.rest
  | send {b : Bool} : Lock how b .sending b none

theorem lock_of_call {l : At} {o : Option At} (h : Call how hasConfig conf l conf' o) :
    Lock how conf.qlock l conf'.qlock o := by
  cases h
  case lock hq _  => exact hq ▸ .take (.inl rfl)
  case again hq _ => exact hq ▸ .take (.inr <| .inr rfl)
  case mark =>
    refine .keep (.inl rfl) ?_
    cases hasConfig
    case false => exact .inr <| .inr rfl
    case true  => exact .inr <| .inl rfl
  case write now =>
    rw [Shutdown.qlock_writeConfig]
    exact .keep (.inr <| .inl rfl) (.inr <| .inr rfl)
  case wake => exact .release
  case send => exact .send

theorem rest_not_locked {l : At} (h : l ∈ how.rest) : ¬l.Locked := by
  cases how
  case recv => simp [How.rest, How.sends] at h
  all_goals
    obtain rfl : At.sending = l := by simpa [How.rest, How.sends] using h
    decide

-- The receiving side is shut in one region.
theorem Lock.locked {b b' : Bool} {l l' : At} (h : Lock .recv b l b' (some l')) (hl : l.Locked) :
    l'.Locked := by
  cases h
  case take hl'   => exact hl'
  case keep _ hl' => exact hl'

section Held

variable [Fintype T]

-- A mutex has at most one holder.
def Held (c : State T) : Prop :=
  count Pc.Holds c.pc = if c.shared.conf.qlock then 1 else 0

theorem Held.qlock (h : Held c) (ht : (c.pc t).Holds) : c.shared.conf.qlock := by
  have := count_pos ht
  rw [h] at this
  by_contra hq
  simp [hq] at this

theorem Held.of_opened (h : Opened c) : Held c := by
  rw [Held, h.qlock, count_eq_zero.mpr fun t => h.idle t ▸ not_false]
  rfl

-- The steps of a shutdown, whoever does it.
theorem Held.lock [DecidableEq T] {l : At} {o : Option At} {m : Pc} (h : Held c)
    (hl : (c.pc t).Holds ↔ l.Locked) (hm : m.Holds ↔ ∃ l' ∈ o, l'.Locked)
    (hk : Lock how c.shared.conf.qlock l s.conf.qlock o) : Held ⟨s, update c.pc t m⟩ := by
  have hu := count_update (p := Pc.Holds) (l := m) (rfl : c.pc t = c.pc t)
  have hq (ht : l.Locked) := h.qlock <| hl.mpr ht
  simp only [Held] at h ⊢
  simp only [hl, hm, h] at hu
  generalize c.shared.conf.qlock = b at hk hu hq
  generalize s.conf.qlock = b' at hk ⊢
  cases hk
  case take hl' =>
    have hn : ¬At.locking.Locked := by decide
    simpa [hl', hn] using hu
  case keep hl hl' => simpa [hl, hl'] using hu
  case release =>
    have hr : ¬∃ l' ∈ how.rest, l'.Locked := by
      rintro ⟨_, hm, hl⟩
      exact rest_not_locked hm hl
    have hw : At.waking.Locked := .inr <| .inr rfl
    rw [if_neg hr, if_pos hw, if_pos (hq hw)] at hu
    simpa using hu
  case send => simpa [At.Locked] using hu

theorem Held.congr [DecidableEq T] {m : Pc} (h : Held c) (hc : ¬(c.pc t).Holds) (hm : ¬m.Holds)
    (hq : s.conf.qlock = c.shared.conf.qlock) : Held ⟨s, update c.pc t m⟩ := by
  have hu := count_update (p := Pc.Holds) (l := m) (rfl : c.pc t = c.pc t)
  rw [if_neg hc, if_neg hm, Nat.add_zero, Nat.add_zero] at hu
  exact (hu.trans h).trans <| hq ▸ rfl

theorem not_holds_shutdown_first : ¬(Pc.shutdown how how.first).Holds := by
  cases how <;> decide

theorem Held.step [DecidableEq T] (h : Held c) (hr : Run e c.shared (c.pc t) s l) :
    Held ⟨s, update c.pc t l⟩ := by
  have key {m : Pc} (hc : c.pc t = m) (hq : s.conf.qlock = c.shared.conf.qlock) (hm : ¬m.Holds)
      (hl : ¬l.Holds) : Held ⟨s, update c.pc t l⟩ :=
    h.congr (hc ▸ hm) hl hq
  generalize hp : c.pc t = l₀ at hr
  have key' := key hp
  cases hr
  case step hs     => exact h.lock (by rw [hp]; rfl) (by simp [Pc.Holds]) (lock_of_call hs)
  case returned hs => exact h.lock (by rw [hp]; rfl) (by simp [Pc.Holds]) (lock_of_call hs)
  case shut hs     => exact h.lock (by rw [hp]; rfl) (by simp [Pc.Holds]) (lock_of_call hs)
  case shutDone hs => exact h.lock (by rw [hp]; rfl) (by simp [Pc.Holds]) (lock_of_call hs)
  case call        => exact key' rfl id not_holds_shutdown_first
  case close       => exact key' rfl id (by decide)
  case detach      => exact key' rfl id (by split <;> exact id)
  case beat        => exact key' (by dsimp only; split <;> simp) id id
  all_goals exact key' rfl id id

theorem Held.of_trace [DecidableEq T] {c₀ : State T} (h₀ : Opened c₀) (ht : Trace Run c₀ es c) :
    Held c :=
  ht.invariant (P := fun _ => Held) (.of_opened h₀) fun _ _ _ _ _ _ => .step

end Held

variable [DecidableEq T] {u : T}

-- A thread has called `ebpfdivert_close`, and no other one has.
structure Closing (u : T) (c : State T) : Prop where
  closing : c.shared.guard.closing
  freed   : c.shared.guard.freed = false
  closer  : ∀ t, t ≠ u → ¬Close.inClose (c.pc t).toClose

theorem Closing.step (h : Closing u c) (hu : t ≠ u) (hr : Run e c.shared (c.pc t) s l) :
    Closing u ⟨s, update c.pc t l⟩ := by
  have ⟨hc, hf, hn⟩ := h
  have ht := hn t hu
  have key (hg : s.guard.closing) (hf : s.guard.freed = false) (hl : ¬Close.inClose l.toClose) :
      Closing u ⟨s, update c.pc t l⟩ := by
    refine ⟨hg, hf, fun t' hu' => ?_⟩
    by_cases heq : t' = t
    case pos => simpa [heq] using hl
    case neg => simpa [heq] using hn t' hu'
  generalize c.pc t = l₀ at hr ht
  cases hr
  case enter he    => simp [Close.handleEnter, hc] at he
  case close he    => simp [Close.startClosing, hc] at he
  case leave       => exact key (by simpa using hc) (by simpa using hf) (by decide)
  case enterRefused | closeRefused | work | beat | returned => exact key hc hf (by decide)
  case call | step => exact key hc hf ht
  all_goals simp [Pc.toClose, Close.inClose] at ht

variable [Fintype T]

theorem closeInv_of_trace {c₀ : State T} (h₀ : Opened c₀) (ht : Trace Run c₀ es c) :
    ∃ es', Close.Inv es' (c.map Shared.guard Pc.toClose) := by
  obtain ⟨es', h⟩ := ht.map fun _ _ _ _ _ hr => hr.toClose
  have ho : c₀.map Shared.guard Pc.toClose = Close.opened T := by
    rw [Config.map, h₀.guard, show c₀.pc = fun _ => .idle from funext h₀.idle]
    rfl
  exact ⟨es', .of_trace (ho ▸ h)⟩

theorem Closing.of_close {c₀ : State T} (h₀ : Opened c₀) (ht : Trace Run c₀ es c)
    (hc : Step Run (u, .close) c c') : Closing u c' ∧ c'.pc u = .closing .locking := by
  have ⟨es', hi⟩ := closeInv_of_trace h₀ ht
  obtain ⟨hr⟩ := hc
  generalize c.pc u = l at hr
  cases hr
  case close hf hc =>
    obtain ⟨hg, rfl⟩ := Close.startClosing_eq_some hc
    have hn (t) : ¬Close.inClose (c.pc t).toClose := fun ht => by
      have := hi.counts.closing (t := t) ht
      simp [Config.map, hg] at this
    refine ⟨⟨rfl, hf, fun t ht => ?_⟩, by simp [How.first, How.recvs]⟩
    simpa [ht] using hn t

-- A thread that holds `qlock` and has nothing to do behind it keeps the closer waiting.
structure Waits (t u : T) (c : State T) : Prop where
  held    : Held c
  closing : Closing u c
  locking : c.pc u = .closing .locking
  locked  : ∃ l, l.Locked ∧ c.pc t = .shutdown .recv l

theorem Waits.step (h : Waits t u c) (hr : Run e c.shared (c.pc t') s l) :
    (t', e) = (t, .returned) ∨ Waits t u ⟨s, update c.pc t' l⟩ := by
  have ⟨l₁, hl₁, ht⟩ := h.locked
  have hq := h.held.qlock (t := t) (by rw [ht]; exact hl₁)
  have hn : t ≠ u := fun heq => by simp [heq, h.locking] at ht
  by_cases heq : t' = u
  case pos =>
    -- The closer needs the lock.
    rw [heq, h.locking] at hr
    cases hr <;> rename_i hs <;> cases hs <;> simp [hq] at *
  case neg =>
    have hheld := h.held.step hr
    have hclosing := h.closing.step heq hr
    have hu : update c.pc t' l u = .closing .locking := by
      rw [Function.update_of_ne (Ne.symm heq), h.locking]
    by_cases htt : t' = t
    case neg => exact .inr ⟨hheld, hclosing, hu, l₁, hl₁, by simpa [Ne.symm htt] using ht⟩
    case pos =>
      subst htt
      rw [ht] at hr
      cases hr
      case returned => exact .inl rfl
      case step hs =>
        exact .inr ⟨hheld, hclosing, hu, _, (lock_of_call hs).locked hl₁, Function.update_self ..⟩

theorem Waits.returned {c' : State T} (h : Waits t u c) (ht : Trace Run c es c')
    (hf : c'.shared.guard.freed) : (t, .returned) ∈ es := by
  have hw : (t, .returned) ∈ es ∨ Waits t u c' := by
    refine ht.invariant (P := fun es c => (t, .returned) ∈ es ∨ Waits t u c) (.inr h) ?_
    intro es c t' e s l hi hr
    obtain hm | hw := hi
    case inl => exact .inl <| List.mem_cons_of_mem _ hm
    case inr =>
      refine (hw.step hr).imp (fun heq => ?_) id
      rw [heq]
      exact List.mem_cons_self
  refine hw.resolve_right fun hw => ?_
  rw [hw.closing.freed] at hf
  exact Bool.noConfusion hf

section Solo

variable {s₀ : Shared} {l₀ : Pc} {es : List Event}

-- A shutdown can give back the lock, and before it returns if it has to stop those who send.
def CanRelease (how : How) (s₀ : Shared) (l₀ : Pc) : Prop :=
  ∃ es s l, Solo Run s₀ l₀ es s l ∧ s.guard = s₀.guard ∧ s.conf.qlock = false ∧
    (how.sends → .returned ∉ es)

theorem CanRelease.of_waking (h : Solo Run s₀ l₀ es s (.shutdown how .waking))
    (hg : s.guard = s₀.guard) (he : .returned ∉ es) : CanRelease how s₀ l₀ := by
  have hs : Call how s.hasConfig s.conf .waking _ how.rest := .wake true
  by_cases hw : how.sends
  case pos =>
    rw [How.rest, if_pos hw] at hs
    exact ⟨_, _, _, h.cons (.step hs), hg, rfl, fun _ => by simpa using he⟩
  case neg =>
    rw [How.rest, if_neg hw] at hs
    exact ⟨_, _, _, h.cons (.returned hs), hg, rfl, fun hw' => absurd hw' hw⟩

theorem CanRelease.of_writing (h : Solo Run s₀ l₀ es s (.shutdown how .writing))
    (hg : s.guard = s₀.guard) (he : .returned ∉ es) : CanRelease how s₀ l₀ :=
  .of_waking (h.cons (.step (.write 0))) hg (by simpa using he)

theorem CanRelease.of_locked {l : At} (hl : l.Locked) : CanRelease how s (.shutdown how l) := by
  obtain rfl | rfl | rfl := hl
  case inl =>
    have hs : Call how s.hasConfig s.conf .marking _ _ := .mark
    split at hs
    case isTrue =>
      have h := Solo.nil.cons (Run.step hs)
      exact .of_writing h rfl (by simp)
    case isFalse =>
      have h := Solo.nil.cons (Run.step hs)
      exact .of_waking h rfl (by simp)
  case inr.inl => exact .of_writing .nil rfl (by simp)
  case inr.inr => exact .of_waking .nil rfl (by simp)

-- The handle can be freed.
def CanFree (s₀ : Shared) (l₀ : Pc) : Prop :=
  ∃ es s l, Solo Run s₀ l₀ es s l ∧ s.guard.freed

theorem CanFree.of_waiting (h : Solo Run s₀ l₀ es s .waiting) (hi : ¬0 < s.guard.inflight) :
    CanFree s₀ l₀ := by
  have h := h.cons (.drain hi)
  have hd : Run .detach s .detaching _ _ := .detach
  split at hd
  case isTrue  => exact ⟨_, _, _, (h.cons hd).cons .free, rfl⟩
  case isFalse => exact ⟨_, _, _, ((h.cons hd).cons (.unregister true)).cons .free, rfl⟩

theorem CanFree.of_waking (h : Solo Run s₀ l₀ es s (.closing .waking)) (hi : ¬0 < s.guard.inflight) :
    CanFree s₀ l₀ := by
  have h := h.cons (.shut (.wake true))
  exact .of_waiting ((h.cons (.shutDone .send)).cons .silence) hi

theorem CanFree.of_locking (hq : s.conf.qlock = false) (hi : ¬0 < s.guard.inflight) :
    CanFree s (.closing .locking) := by
  have h : Solo Run s (.closing .locking) [] s (.closing .locking) := .nil
  cases hr : s.conf.queue.shutRecv
  case true  => exact .of_waking (h.cons (.shut (.again hq hr))) hi
  case false =>
    have h := h.cons (.shut (.lock hq hr))
    have hs {conf} : Call .both s.hasConfig conf .marking _ _ := .mark
    split at hs
    case isTrue  => exact .of_waking ((h.cons (.shut hs)).cons (.shut (.write 0))) hi
    case isFalse => exact .of_waking (h.cons (.shut hs)) hi

end Solo

-- The guarded calls can leave.
theorem exists_leave (c : State T) : ∃ es c', Trace Run c es c' ∧ (∀ a ∈ es, a.2 = .leave) ∧
    (∀ t, c'.pc t = if c.pc t = .body then .idle else c.pc t) ∧ c'.shared.conf = c.shared.conf := by
  induction hn : count (· = Pc.body) c.pc generalizing c
  case zero =>
    refine ⟨[], c, .nil, by simp, fun t => ?_, rfl⟩
    rw [if_neg (count_eq_zero.mp hn t)]
  case succ n ih =>
    obtain ⟨t, ht⟩ := exists_of_count_pos (hn ▸ n.succ_pos : 0 < count (· = Pc.body) c.pc)
    have hr := Solo.nil.cons (Run.leave (s := c.shared))
    rw [← ht] at hr
    have hu := count_update (p := (· = Pc.body)) (l := .idle) ht
    obtain ⟨es, c', h, he, hp, hc⟩ := ih ⟨_, update c.pc t .idle⟩ (by simpa [hn] using hu)
    refine ⟨es ++ [(t, .leave)], c', hr.trace.append h, ?_, fun t' => ?_, hc⟩
    case refine_1 => simpa [or_imp, forall_and] using he
    case refine_2 =>
      rw [hp t']
      by_cases heq : t' = t
      case pos => simp [heq, ht]
      case neg => simp [heq]

-- So can a shutdown that is in its region.
theorem exists_unlocked {l : At} (h : Held c) (hv : ∀ v, (c.pc v).Holds → ∃ how l, c.pc v = .shutdown how l)
    (hs : c.pc t = .shutdown how l) (hn : ¬(l.Locked ∧ how = .recv)) :
    ∃ es c', Trace Run c es c' ∧ (∀ v, ¬(c.pc v).Holds → c'.pc v = c.pc v) ∧
      c'.shared.guard = c.shared.guard ∧ c'.shared.conf.qlock = false ∧ (t, .returned) ∉ es := by
  cases hq : c.shared.conf.qlock
  case false => exact ⟨[], c, .nil, fun _ _ => rfl, rfl, hq, by simp⟩
  case true =>
    have hp : 0 < count Pc.Holds c.pc := by
      rw [h, hq]
      exact Nat.one_pos
    obtain ⟨v, hvl⟩ := exists_of_count_pos hp
    obtain ⟨how', l', hl⟩ := hv v hvl
    obtain ⟨es, s, m, hr, hg, hq', he⟩ : CanRelease how' c.shared (c.pc v) :=
      hl ▸ .of_locked (by rwa [hl] at hvl)
    refine ⟨_, _, hr.trace, fun w hw => ?_, hg, hq', fun hm => ?_⟩
    case refine_1 => exact Function.update_of_ne (fun heq : w = v => hw (heq ▸ hvl)) ..
    case refine_2 =>
      obtain ⟨e, hm, heq⟩ := List.mem_map.mp hm
      cases heq
      obtain ⟨rfl, rfl⟩ : how' = how ∧ l' = l := by simpa using hl.symm.trans hs
      refine he ?_ hm
      rw [hl] at hvl
      cases how'
      case recv => exact absurd ⟨hvl, rfl⟩ hn
      all_goals rfl

-- Anything else does not keep the closer waiting.
theorem exists_free {c₀ : State T} {l : At} (h₀ : Opened c₀) (ht : Trace Run c₀ es c)
    (hc : Closing u c) (hu : c.pc u = .closing .locking) (hs : c.pc t = .shutdown how l)
    (hn : ¬(l.Locked ∧ how = .recv)) :
    ∃ es' c', Trace Run c es' c' ∧ c'.shared.guard.freed ∧ (t, .returned) ∉ es' := by
  obtain ⟨es₁, c₁, h₁, he₁, hp₁, -⟩ := exists_leave c
  have hbody (v) : c₁.pc v ≠ .body := by
    rw [hp₁]
    split <;> simp_all
  have hu₁ : c₁.pc u = .closing .locking := by simp [hp₁, hu]
  have hs₁ : c₁.pc t = .shutdown how l := by simp [hp₁, hs]
  have htu : t ≠ u := fun heq => by simp [heq, hu] at hs
  obtain ⟨_, hi⟩ := closeInv_of_trace h₀ (ht.append h₁)
  have hinf : ¬0 < c₁.shared.guard.inflight := by
    have hz : count Close.inBody (c₁.map Shared.guard Pc.toClose).pc = 0 :=
      count_eq_zero.mpr fun v hv => hbody v (Pc.inBody_toClose hv)
    have := hi.counts.inflight
    rw [hz] at this
    exact this.le.not_gt
  -- Another thread may be in its region.
  have hv (v) (hv : (c₁.pc v).Holds) : ∃ how l, c₁.pc v = .shutdown how l := by
    have hvu : v ≠ u := fun heq => by
      rw [heq, hu₁] at hv
      exact absurd hv (by decide)
    refine hv.shutdown ?_
    rw [hp₁]
    split
    case isTrue  => decide
    case isFalse => exact hc.closer v hvu
  obtain ⟨es₂, c₂, h₂, hp₂, hg₂, hq₂, he₂⟩ :=
    exists_unlocked (.of_trace h₀ (ht.append h₁)) hv hs₁ hn
  have hu₂ : c₂.pc u = .closing .locking := by
    rw [hp₂ u (by rw [hu₁]; decide), hu₁]
  obtain ⟨es₃, s₃, l₃, h₃, hf₃⟩ := CanFree.of_locking hq₂ (hg₂ ▸ hinf)
  rw [← hu₂] at h₃
  refine ⟨_, _, (h₁.append h₂).append h₃.trace, hf₃, ?_⟩
  simp only [List.mem_append, not_or]
  exact ⟨by simp [Ne.symm htu], he₂, fun hm => by simpa using he₁ _ hm⟩

theorem close_waits_iff {c₀ : State T} {l : At} (h₀ : Opened c₀) (ht : Trace Run c₀ es c)
    (hc : Step Run (u, .close) c c') (hs : c.pc t = .shutdown how l) :
    (∀ es' c'', Trace Run c' es' c'' → c''.shared.guard.freed → (t, .returned) ∈ es') ↔
      l.Locked ∧ how = .recv := by
  have ⟨hcl, hu⟩ := Closing.of_close h₀ ht hc
  have hs' : c'.pc t = .shutdown how l := by
    obtain ⟨hr⟩ := hc
    have htu : t ≠ u := fun heq => by
      rw [← heq, hs] at hr
      cases hr
    exact (Function.update_of_ne htu ..).trans hs
  constructor
  case mp =>
    intro h
    by_contra hn
    have ⟨es', c'', ht', hf, hm⟩ := exists_free h₀ (ht.cons hc) hcl hu hs' hn
    exact hm <| h es' c'' ht' hf
  case mpr =>
    rintro ⟨hl, rfl⟩ es' c'' ht' hf
    have hw : Waits t u c' := ⟨.of_trace h₀ (ht.cons hc), hcl, hu, l, hl, hs'⟩
    exact hw.returned ht' hf

-- A network handle that has just been opened.
def opened : State Bool where
  shared :=
    { guard      := ⟨false, 0, false, false⟩
      conf       := Shutdown.opened
      hasConfig  := true
      beating    := true
      natt       := 2
      regId      := 1
      registered := true }
  pc _ := .idle

theorem Opened.opened : Opened opened :=
  ⟨rfl, rfl, fun _ => rfl⟩

-- The closer has to wait for a thread that wakes the receivers.
theorem close_waits_iff_waking : ∃ es c c', Trace Run opened es c ∧
    Step Run (true, .close) c c' ∧ c.pc false = .shutdown .recv .waking ∧
    ∀ es' c'', Trace Run c' es' c'' → c''.shared.guard.freed → (false, .returned) ∈ es' := by
  have h : Trace Run opened [] opened := .nil
  have h := h.cons (.mk (t := false) (.call .recv rfl))
  have h := h.cons (.mk (t := false) (.step (.lock rfl rfl)))
  have h := h.cons (.mk (t := false) (.step .mark))
  have h := h.cons (.mk (t := false) (.step (.write 1)))
  refine ⟨_, _, _, h, .mk (t := true) (.close rfl rfl), rfl, ?_⟩
  exact (close_waits_iff .opened h (.mk (t := true) (.close rfl rfl)) rfl).mpr ⟨by decide, rfl⟩

-- A thread has called `ebpfdivert_shutdown` and not yet taken the lock when the handle is closed.
theorem close_frees_in_shutdown : ∃ c, Trace Run opened
    [(true, .free), (true, .unregister), (true, .detach), (true, .drain), (true, .silence),
      (true, .shutDone), (true, .shut), (true, .shut), (true, .shut), (true, .shut), (true, .close),
      (false, .call)] c ∧
    c.shared.guard.freed ∧ c.pc false = .shutdown .recv .locking := by
  have h : Trace Run opened [] opened := .nil
  have h := h.cons (.mk (t := false) (.call .recv rfl))
  have h := h.cons (.mk (t := true) (.close rfl rfl))
  have h := h.cons (.mk (t := true) (.shut (.lock rfl rfl)))
  have h := h.cons (.mk (t := true) (.shut .mark))
  have h := h.cons (.mk (t := true) (.shut (.write 1)))
  have h := h.cons (.mk (t := true) (.shut (.wake true)))
  have h := h.cons (.mk (t := true) (.shutDone .send))
  have h := h.cons (.mk (t := true) .silence)
  have h := h.cons (.mk (t := true) (.drain (by decide)))
  have h := h.cons (.mk (t := true) .detach)
  have h := h.cons (.mk (t := true) (.unregister true))
  have h := h.cons (.mk (t := true) .free)
  exact ⟨_, h, rfl, rfl⟩

end Handle.Teardown
