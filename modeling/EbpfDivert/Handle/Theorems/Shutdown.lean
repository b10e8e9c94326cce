import EbpfDivert.Handle.Shutdown
import EbpfDivert.Kernel.Theorems.Process

open Shared Kernel

namespace Handle.Shutdown

open Threads
open Function (update)

variable {T : Type} {es : List (T × Event)} {c : Config T Shared Pc} {t : T}
variable {e : Event} {s s' : Shared} {l l' : Pc} {now : BitVec 64} {how : How} {l₁ : At} {o : Option At}

-- The next write to the map shuts the programs down.
def Marked (s : Shared) : Prop :=
  Flags.has s.cfg.flags cfgShutdown ∧ Flags.has s.evcfg.flags evcfgShutdown

-- The programs of the layer are shut down.
def Shut (s : Shared) : Prop :=
  match s.map with
  | .inl cfg   => isEventLayer s.layer = false ∧ Flags.has cfg.flags cfgShutdown
  | .inr evcfg => isEventLayer s.layer ∧ Flags.has evcfg.flags evcfgShutdown

-- Both at once: a later write to the map changes nothing.
structure Final (s : Shared) : Prop where
  marked : Marked s
  shut   : Shut s

theorem marked_setFlags : Marked (setFlags s) := by
  simp [Marked, setFlags]

theorem marked_writeConfig : Marked (writeConfig now s) ↔ Marked s := by
  rw [writeConfig]
  split <;> rfl

theorem Marked.writeConfig (h : Marked s) : Final (writeConfig now s) := by
  refine ⟨marked_writeConfig.mpr h, ?_⟩
  rw [Shutdown.writeConfig]
  split_ifs with he
  case pos => exact ⟨he, h.right⟩
  case neg => exact ⟨Bool.eq_false_of_not_eq_true he, h.left⟩

@[simp]
theorem qlock_writeConfig : (writeConfig now s).qlock = s.qlock := by
  rw [writeConfig]
  split <;> rfl

@[simp]
theorem queue_writeConfig : (writeConfig now s).queue = s.queue := by
  rw [writeConfig]
  split <;> rfl

theorem Final.setFlags (h : Final s) : Final (setFlags s) :=
  ⟨marked_setFlags, h.shut⟩

theorem shutRecv_setParam {q q' : Queue} {param : Param} {value : BitVec 64}
    (h : q.setParam param value = .ok q') : q'.shutRecv = q.shutRecv := by
  cases param
  case queueLength | queueTime | queueSize =>
    simp only [Queue.setParam] at h
    split_ifs at h
    cases h
    rfl
  all_goals cases h

-- What a shutdown has achieved before its next step, or when it returns.
def Reached (how : How) (s : Shared) : Option At → Prop
  | some .locking | some .marking => True
  | some .writing                 => Marked s
  | some .waking                  => Final s
  | some .sending | none          => how.recvs → Final s

def Placed (s : Shared) : Pc → Prop
  | .idle           => True
  | .shutdown how l => Reached how s (some l)

structure Inv (es : List (T × Event)) (c : Config T Shared Pc) : Prop where
  placed   : ∀ t, Placed c.shared (c.pc t)
  unlocked : c.shared.qlock = false → c.shared.queue.shutRecv → Final c.shared
  returned : ∀ t how, (t, .returned how) ∈ es → how.recvs → Final c.shared

-- An open handle on which no call is being made and which has not been shut down.
structure Fresh (c : Config T Shared Pc) : Prop where
  idle    : ∀ t, c.pc t = .idle
  notShut : c.shared.queue.shutRecv = false

theorem Inv.of_fresh (h : Fresh c) : Inv [] c where
  placed t   := by rw [h.idle t]; trivial
  unlocked _ := by simp [h.notShut]
  returned   := by simp

theorem Final.congr (h : Final s) (hl : s'.layer = s.layer) (hc : s'.cfg = s.cfg)
    (he : s'.evcfg = s.evcfg) (hm : s'.map = s.map) : Final s' := by
  refine ⟨?_, ?_⟩
  case refine_1 => rw [Marked, hc, he]; exact h.marked
  case refine_2 => rw [Shut, hm, hl]; exact h.shut

-- Nobody takes the flags back.
theorem Marked.call (h : Marked s) (hs : Call how true s l₁ s' o) : Marked s' := by
  cases hs
  case mark  => exact marked_setFlags
  case write => exact marked_writeConfig.mpr h
  all_goals exact h

theorem Final.call (h : Final s) (hs : Call how true s l₁ s' o) : Final s' := by
  cases hs
  case mark  => exact h.setFlags
  case write => exact h.marked.writeConfig
  all_goals exact h.congr rfl rfl rfl rfl

theorem Marked.run (h : Marked s) (hr : Run e s l s' l') : Marked s' := by
  cases hr
  case step hs     => exact h.call hs
  case returned hs => exact h.call hs
  case beat        => exact marked_writeConfig.mpr h
  all_goals exact h

theorem Final.run (h : Final s) (hr : Run e s l s' l') : Final s' := by
  cases hr
  case call        => exact h
  case step hs     => exact h.call hs
  case returned hs => exact h.call hs
  case beat        => exact h.marked.writeConfig
  case setParam    => exact h.congr rfl rfl rfl rfl

theorem Placed.run {l₀ : Pc} (h : Placed s l₀) (hr : Run e s l s' l') : Placed s' l₀ := by
  rcases l₀ with _ | ⟨_, _ | _ | _ | _ | _⟩
  case shutdown.writing => exact Marked.run h hr
  case shutdown.waking  => exact Final.run h hr
  case shutdown.sending => exact fun hw => (h hw).run hr
  all_goals trivial

-- A shutdown of the receiving side sets the flags and writes them, or finds that this has been done.
theorem Reached.call (h : Reached how s (some l₁)) (hs : Call how true s l₁ s' o)
    (hu : s.qlock = false → s.queue.shutRecv → Final s) : Reached how s' o := by
  cases hs
  case lock        => trivial
  case again hq hs => exact (hu hq hs).congr rfl rfl rfl rfl
  case mark        => exact marked_setFlags
  case write       => exact Marked.writeConfig h
  case send        => exact fun hw => (h hw).congr rfl rfl rfl rfl
  case wake fdOk =>
    have hf : Final { s with qlock := false, queue := s.queue.wakeUpdate fdOk } := h.congr rfl rfl rfl rfl
    rw [How.rest]
    split
    case isTrue  => exact fun _ => hf
    case isFalse => exact fun _ => hf

-- When the lock is free again, this has been done.
theorem Reached.unlocked (h : Reached how s (some l₁)) (hs : Call how true s l₁ s' o)
    (hu : s.qlock = false → s.queue.shutRecv → Final s) (hq : s'.qlock = false)
    (hr : s'.queue.shutRecv) : Final s' := by
  cases hs
  case lock | again => cases hq
  case mark         => exact (hu hq hr).setFlags
  case write        => exact Marked.writeConfig h
  case wake         => exact h.congr rfl rfl rfl rfl
  case send         => exact (hu hq hr).congr rfl rfl rfl rfl

variable [DecidableEq T]

theorem Inv.step (h : Inv es c) (hr : Run e c.shared (c.pc t) s l) :
    Inv ((t, e) :: es) ⟨s, update c.pc t l⟩ := by
  have hp := h.placed t
  constructor
  case placed =>
    rw [Function.forall_update_iff _ fun _ l => Placed s l]
    refine ⟨?_, fun t' _ => (h.placed t').run hr⟩
    generalize c.pc t = l₀ at hr hp
    cases hr
    case call how =>
      cases how
      case send => exact fun hw => nomatch hw
      all_goals trivial
    case step hs => exact hp.call hs h.unlocked
    all_goals trivial
  case unlocked =>
    intro hq hs
    generalize c.pc t = l₀ at hr hp
    cases hr
    case call         => exact h.unlocked hq hs
    case step hs'     => exact hp.unlocked hs' h.unlocked hq hs
    case returned hs' => exact hp.unlocked hs' h.unlocked hq hs
    case beat =>
      rw [qlock_writeConfig] at hq
      rw [queue_writeConfig] at hs
      exact (h.unlocked hq hs).marked.writeConfig
    case setParam hsp => exact (h.unlocked hq (shutRecv_setParam hsp ▸ hs)).congr rfl rfl rfl rfl
  case returned =>
    intro t' how ht' hw
    rcases List.mem_cons.mp ht' with heq | hm
    case inr => exact (h.returned t' how hm hw).run hr
    case inl =>
      cases heq
      generalize c.pc t = l₀ at hr hp
      cases hr
      case returned hs => exact hp.call hs h.unlocked hw

-- What the programs do from then on.
def Silent (s : Shared) : Prop :=
  match s.map with
  | .inl cfg   => ∀ env tables skb direction,
    processPacket env cfg tables skb direction = .pass none
  | .inr evcfg => (∀ env table sk v6 info,
      onBind env evcfg table sk v6 info = .ignore (.sock info)) ∧
    ∀ env table ctx v6 storage, onConnect env evcfg table ctx v6 storage = .ignore storage

theorem Shut.silent (h : Shut s) : Silent s := by
  rw [Shut] at h
  rw [Silent]
  split at h
  case h_1 cfg _ =>
    intro env tables skb direction
    rw [processPacket, if_pos h.right]
  case h_2 evcfg _ =>
    exact ⟨fun _ _ _ _ _ => onBind_shutdown h.right, fun _ _ _ _ _ => onConnect_shutdown h.right⟩

theorem shutdown_permanent {c₀ : Config T Shared Pc} (h₀ : Fresh c₀) (ht : Trace Run c₀ es c)
    (hr : (t, .returned how) ∈ es) (hw : how.recvs) : Shut c.shared ∧ Silent c.shared := by
  have hi : Inv es c := ht.invariant (.of_fresh h₀) fun _ _ _ _ _ _ => .step
  have hs := (hi.returned t how hr hw).shut
  exact ⟨hs, hs.silent⟩

-- A handle of the network layer.
def opened : Shared where
  layer    := .network
  qlock    := false
  queue    := .opened
  cfg      := openConfig
  evcfg    := ⟨0, 0, 0⟩
  map      := .inl openConfig
  shutSend := false

-- The heartbeat writes a copy without the flag while the first shutdown is under way.
theorem shutdown_permanent_beat : ∃ (es : List (Bool × Event)) (c : Config Bool Shared Pc),
    Trace Run ⟨opened, fun _ => .idle⟩ es c ∧ (true, .returned .recv) ∈ es ∧ Shut c.shared ∧
      Silent c.shared := by
  have h : Trace Run ⟨opened, fun _ : Bool => .idle⟩ [] ⟨opened, fun _ => .idle⟩ := .nil
  have h := h.cons (.mk (t := true) (.call .recv))
  have h := h.cons (.mk (t := true) (.step (.lock rfl rfl)))
  have h := h.cons (.mk (t := false) (.beat 1))
  have h := h.cons (.mk (t := true) (.step .mark))
  have h := h.cons (.mk (t := true) (.step (.write 2)))
  have h := h.cons (.mk (t := true) (.returned (.wake true)))
  have h := h.cons (.mk (t := false) (.beat 3))
  have hf : Fresh ⟨opened, fun _ : Bool => .idle⟩ := ⟨fun _ => rfl, rfl⟩
  have hm : (true, Event.returned .recv) ∈ [(false, Event.beat), (true, .returned .recv), (true, .step),
      (true, .step), (false, .beat), (true, .step), (true, .call)] := by decide
  exact ⟨_, _, h, hm, shutdown_permanent hf h hm rfl⟩

end Handle.Shutdown
