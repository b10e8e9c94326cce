import EbpfDivert.Handle.Heartbeat
import Mathlib.Algebra.Group.Nat.Defs

open Shared Kernel

namespace Handle.Heartbeat

variable {s s' : Sys} {a : Act} {as mid pre : List Act} {o : Order} {cfg : DivertConfig}
variable {evcfg : EventConfig} {now hb r : Nat}

-- Three seconds.
def timeout : Nat := 3000000000

-- The difference is one of unsigned numbers: a timestamp from the future looks very old.
theorem stale_iff (hn : now < 2 ^ 63) (hh : hb < 2 ^ 63) :
    heartbeatTimeoutNs < BitVec.ofNat 64 now - BitVec.ofNat 64 hb ↔ now < hb ∨ hb + timeout < now := by
  rw [BitVec.lt_def, BitVec.toNat_sub, BitVec.toNat_ofNat, BitVec.toNat_ofNat,
    show heartbeatTimeoutNs.toNat = 3000000000 from rfl, timeout]
  omega

theorem timeout_ne_zero : heartbeatTimeoutNs ≠ 0#64 := by decide

theorem packetCheck_iff (hn : o.time s s' < 2 ^ 63) (hh : o.loaded s s' < 2 ^ 63) :
    packetCheck o cfg s s' ↔
      o.time s s' < o.loaded s s' ∨ o.loaded s s' + timeout < o.time s s' := by
  rw [← stale_iff hn hh, packetCheck, ownerGone, decide_eq_true_iff]
  exact and_iff_right timeout_ne_zero

theorem eventCheck_iff (hn : o.time s s' < 2 ^ 63) (hh : o.loaded s s' < 2 ^ 63)
    (he : Flags.has evcfg.flags evcfgShutdown = false) : eventCheck o evcfg s s' ↔
      o.time s s' < o.loaded s s' ∨ o.loaded s s' + timeout < o.time s s' := by
  rw [← stale_iff hn hh]
  refine Iff.trans ?_ (and_iff_right timeout_ne_zero)
  simp [eventCheck, liveConfig, he]

-- Timestamps are in order.
structure Ordered (s : Sys) : Prop where
  heartbeat : s.heartbeat ≤ s.storedAt
  storedAt  : s.storedAt ≤ s.clock
  reading   : ∀ r ∈ s.reading, s.storedAt ≤ r ∧ r ≤ s.clock

-- One action, with what it stores.
theorem step_cases (hs : step s a = some s') :
    (a ≠ .store ∧ s.clock ≤ s'.clock ∧ s'.heartbeat = s.heartbeat ∧ s'.storedAt = s.storedAt ∧
      ∀ r ∈ s'.reading, r ∈ s.reading ∨ r = s.clock) ∨
    ∃ r ∈ s.reading, a = .store ∧
      s' = { s with reading := none, heartbeat := r, storedAt := s.clock } := by
  cases a
  case tick d =>
    cases hs
    exact .inl ⟨by simp, Nat.le_add_right .., rfl, rfl, fun r => .inl⟩
  case read =>
    simp only [step] at hs
    split at hs
    case isTrue  => cases hs
    case isFalse =>
      cases hs
      exact .inl ⟨by simp, Nat.le_refl _, rfl, rfl, fun r hr => .inr (Option.some.inj hr).symm⟩
  case store =>
    obtain ⟨r, hr, rfl⟩ := Option.map_eq_some_iff.mp hs
    exact .inr ⟨r, hr, rfl, rfl⟩

theorem Ordered.step (h : Ordered s) (hs : step s a = some s') :
    Ordered s' ∧ s.clock ≤ s'.clock ∧ s.heartbeat ≤ s'.heartbeat := by
  have ⟨h₁, h₂, h₃⟩ := h
  rcases step_cases hs with ⟨-, hc, hh, hs, hr⟩ | ⟨r, hr, -, rfl⟩
  case inl =>
    refine ⟨⟨by omega, by omega, fun r hm => ?_⟩, hc, by omega⟩
    rcases hr r hm with hm | rfl
    case inl => have := h₃ r hm; omega
    case inr => omega
  case inr =>
    have ⟨hl, hu⟩ := h₃ r hr
    exact ⟨⟨hu, Nat.le_refl _, by simp⟩, Nat.le_refl _, Nat.le_trans h₁ hl⟩

theorem run_cons (h : run s (a :: as) = some s') : ∃ s₁, step s a = some s₁ ∧ run s₁ as = some s' :=
  Option.bind_eq_some_iff.mp h

theorem Ordered.run (h : Ordered s) (hr : run s as = some s') :
    Ordered s' ∧ s.clock ≤ s'.clock ∧ s.heartbeat ≤ s'.heartbeat := by
  induction as generalizing s
  case nil =>
    cases hr
    exact ⟨h, Nat.le_refl _, Nat.le_refl _⟩
  case cons ih =>
    obtain ⟨s₁, hs, hr⟩ := run_cons hr
    have ⟨h₁, hc, hh⟩ := h.step hs
    have ⟨h₂, hc', hh'⟩ := ih h₁ hr
    exact ⟨h₂, Nat.le_trans hc hc', Nat.le_trans hh hh'⟩

-- The timestamp is the last reading that was stored, which is also the latest.
theorem Ordered.stored (h : Ordered s) (hr : Heartbeat.run s as = some s') :
    (∀ r ∈ stored s as, r ≤ s'.heartbeat) ∧
      (s'.heartbeat = s.heartbeat ∨ s'.heartbeat ∈ stored s as) := by
  induction as generalizing s
  case nil =>
    cases hr
    exact ⟨by simp [Heartbeat.stored], .inl rfl⟩
  case cons a as ih =>
    obtain ⟨s₁, hs, hr⟩ := run_cons hr
    have ⟨h₁, _⟩ := h.step hs
    have ⟨hle, hm⟩ := ih h₁ hr
    rw [Heartbeat.stored, hs]
    rcases step_cases hs with ⟨hn, -, hh, -⟩ | ⟨r, hr', rfl, rfl⟩
    case inl =>
      dsimp only
      rw [if_neg hn]
      exact ⟨hle, hh ▸ hm⟩
    case inr =>
      dsimp only
      rw [if_pos rfl]
      refine ⟨fun r' hr'' => ?_, ?_⟩
      case refine_1 =>
        rcases List.mem_cons.mp hr'' with rfl | hr''
        case inl => exact (h₁.run hr).right.right
        case inr => exact hle r' hr''
      case refine_2 =>
        rcases hm with hm | hm
        case inl => exact .inr <| hm ▸ List.mem_cons_self
        case inr => exact .inr <| List.mem_cons_of_mem _ hm

theorem run_of_no_store (hn : .store ∉ as) (hr : run s as = some s') :
    s'.heartbeat = s.heartbeat ∧ s.clock ≤ s'.clock := by
  induction as generalizing s
  case nil => cases hr; exact ⟨rfl, Nat.le_refl _⟩
  case cons a as ih =>
    obtain ⟨s₁, hs, hr⟩ := run_cons hr
    have ⟨h₁, h₂⟩ := ih (fun hm => hn (List.mem_cons_of_mem _ hm)) hr
    rcases step_cases hs with ⟨-, hc, hh, -⟩ | ⟨r, -, rfl, -⟩
    case inl => exact ⟨h₁.trans hh, Nat.le_trans hc h₂⟩
    case inr => exact absurd List.mem_cons_self hn

-- The owner is punctual: it stores a new timestamp before the last one is a timeout old.
def Punctual (s : Sys) : List Act → Prop
  | []      => s.clock < s.heartbeat + timeout
  | a :: as => s.clock < s.heartbeat + timeout ∧ ∀ s' ∈ step s a, Punctual s' as

theorem Punctual.head (h : Punctual s as) : s.clock < s.heartbeat + timeout := by
  cases as
  case nil  => exact h
  case cons => exact h.left

theorem Punctual.cons (hc : s.clock < s.heartbeat + timeout) (hs : step s a = some s')
    (h : Punctual s' as) :
    Punctual s (a :: as) :=
  ⟨hc, fun _ hs' => Option.some.inj (hs.symm.trans hs') ▸ h⟩

theorem Punctual.after (h : Punctual s (pre ++ mid)) (hr : run s pre = some s') : Punctual s' mid := by
  induction pre generalizing s
  case nil => cases hr; exact h
  case cons ih =>
    obtain ⟨s₁, hs, hr⟩ := run_cons hr
    exact ih (h.right s₁ hs) hr

-- In particular, the readings that it stores are less than the timeout apart.
theorem Punctual.stored (h : Punctual s as) (ho : Ordered s) :
    (s.heartbeat :: stored s as).IsChain fun r r' => r' < r + timeout := by
  induction as generalizing s
  case nil => exact .singleton _
  case cons a as ih =>
    rw [Heartbeat.stored]
    cases hs : Heartbeat.step s a
    case none => exact .singleton _
    case some s₁ =>
      have hc := ih (h.right s₁ hs) (ho.step hs).left
      rcases step_cases hs with ⟨hn, -, hh, -⟩ | ⟨r, hr, rfl, rfl⟩
      case inl =>
        dsimp only
        rw [if_neg hn]
        exact hh ▸ hc
      case inr =>
        dsimp only
        rw [if_pos rfl]
        exact .cons_cons (Nat.lt_of_le_of_lt (ho.reading r hr).right h.head) hc

-- An update that has read the clock after a check is stored before the check loads the timestamp.
def Overtaken (s : Sys) (mid : List Act) : Prop :=
  ∃ r ∈ stored s mid, s.clock < r

theorem overtaken_iff (h : Ordered s) (hr : run s mid = some s') :
    Overtaken s mid ↔ s.clock < s'.heartbeat := by
  have ⟨hle, hm⟩ := h.stored hr
  constructor
  case mp =>
    rintro ⟨r, hr, hl⟩
    exact Nat.lt_of_lt_of_le hl (hle r hr)
  case mpr =>
    intro hl
    have := h.heartbeat
    have := h.storedAt
    rcases hm with hm | hm
    case inl => omega
    case inr => exact ⟨_, hm, hl⟩

-- Nothing has been stored for longer than the timeout, and nothing is while the check runs.
def Quiet (s : Sys) (mid : List Act) : Prop :=
  .store ∉ mid ∧ s.storedAt + timeout < s.clock

def opened (t : Nat) : Sys :=
  ⟨t, none, t, t⟩

theorem Ordered.opened (t : Nat) : Ordered (opened t) :=
  ⟨Nat.le_refl t, Nat.le_refl t, by simp [Heartbeat.opened]⟩

-- A check that reads the clock first takes a punctual owner for dead if and only if an update overtakes
-- it, and one that loads the timestamp first if and only if what was left of the timeout passes until it
-- reads the clock. Both take one for dead that has not stored anything for longer than the timeout.
theorem heartbeat_checked {t : Nat} (hp : run (opened t) pre = some s) (hm : run s mid = some s')
    (hc : s'.clock < 2 ^ 63) (he : Flags.has evcfg.flags evcfgShutdown = false) :
    (Punctual (opened t) (pre ++ mid) →
      ((packetCheck .clockFirst cfg s s' = false ∧ eventCheck .clockFirst evcfg s s' = false) ↔
        ¬Overtaken s mid) ∧
      ((packetCheck .loadFirst cfg s s' = false ∧ eventCheck .loadFirst evcfg s s' = false) ↔
        s'.clock - s.clock ≤ s.heartbeat + timeout - s.clock)) ∧
    (Quiet s mid → ∀ o, packetCheck o cfg s s' ∧ eventCheck o evcfg s s') := by
  have ⟨ho, _⟩ := (Ordered.opened t).run hp
  have ⟨⟨ho₁, ho₂, _⟩, hc', hh⟩ := ho.run hm
  have hn (o : Order) : o.time s s' < 2 ^ 63 := by cases o <;> simp only [Order.time] <;> omega
  have hl (o : Order) : o.loaded s s' < 2 ^ 63 := by cases o <;> simp only [Order.loaded] <;> omega
  have hpc (o : Order) : packetCheck o cfg s s' ↔ _ := packetCheck_iff (hn o) (hl o)
  have hev (o : Order) := eventCheck_iff (hn o) (hl o) he
  have hle := ho.heartbeat
  have hle' := ho.storedAt
  constructor
  case left =>
    intro hpu
    have hlt := (hpu.after hp).head
    simp only [← Bool.not_eq_true, hpc, hev, and_self, overtaken_iff ho hm, Order.time, Order.loaded]
    constructor <;> omega
  case right =>
    rintro ⟨hns, hq⟩ o
    have ⟨hh', _⟩ := run_of_no_store hns hm
    rw [hpc, hev, and_self]
    cases o <;> simp only [Order.time, Order.loaded] <;> omega

-- An update reads the clock before a packet arrives and is stored while the packet is checked.
theorem heartbeat_checked_alive : ∃ s s', run (opened 0) [.tick 500000000, .read, .tick 1] = some s ∧
    run s [.store, .tick 1] = some s' ∧
    ∀ cfg, packetCheck .clockFirst cfg s s' = false ∧ packetCheck .loadFirst cfg s s' = false := by
  have hp : run (opened 0) [.tick 500000000, .read, .tick 1] =
    some ⟨500000001, some 500000000, 0, 0⟩ := rfl
  have hm : run ⟨500000001, some 500000000, 0, 0⟩ [.store, .tick 1] =
      some ⟨500000002, none, 500000000, 500000001⟩ := rfl
  have hpu : Punctual (opened 0) ([.tick 500000000, .read, .tick 1] ++ [.store, .tick 1]) :=
    .cons (by decide) rfl <| .cons (by decide) rfl <| .cons (by decide) rfl <| .cons (by decide) rfl <|
      .cons (by decide) rfl (by decide : (_ : Nat) < _)
  have he : Flags.has (EventConfig.mk 0 0 0).flags evcfgShutdown = false := rfl
  refine ⟨_, _, hp, hm, fun cfg => ?_⟩
  obtain ⟨hcf, hlf⟩ : (packetCheck _ cfg _ _ = _ ∧ _ ↔ _) ∧ _ :=
    (heartbeat_checked hp hm (by decide) he).left hpu
  exact ⟨(hcf.mpr (by simp [Overtaken, stored, step])).left, (hlf.mpr (by decide)).left⟩

-- The timestamp is refreshed every half second. A check reads the clock a nanosecond before the next
-- update does and loads what that update has stored.
theorem heartbeat_overtaken : ∃ s s', run (opened 0) [.tick 499999999] = some s ∧
    run s [.tick 1, .read, .store] = some s' ∧
    Punctual (opened 0) ([.tick 499999999] ++ [.tick 1, .read, .store]) ∧
    stored s [.tick 1, .read, .store] = [500000000] ∧ ∀ cfg, packetCheck .clockFirst cfg s s' :=
  ⟨⟨499999999, none, 0, 0⟩, ⟨500000000, none, 500000000, 500000000⟩, rfl, rfl,
    .cons (by decide) rfl <| .cons (by decide) rfl <| .cons (by decide) rfl <| .cons (by decide) rfl
      (by decide : (_ : Nat) < _), rfl,
    fun _ => (packetCheck_iff (by decide) (by decide)).mpr (.inl (by decide))⟩

end Handle.Heartbeat
