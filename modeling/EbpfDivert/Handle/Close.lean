import EbpfDivert.Primitives.Threads

-- How `ebpfdivert_close` waits for the calls that use the handle.
namespace Handle.Close

-- What `rlock` protects, and whether the memory of the handle has been given back. A broadcast on
-- `rcond` wakes the closer.
structure Guard where
  closing  : Bool
  inflight : Int
  woken    : Bool
  freed    : Bool

def handleEnter (g : Guard) : Option Guard :=
  if g.closing then none else some { g with inflight := g.inflight + 1 }

def handleLeave (g : Guard) : Guard :=
  let g := { g with inflight := g.inflight - 1 }
  if g.inflight = 0 ∧ g.closing then { g with woken := true } else g

-- The first region of `ebpfdivert_close`.
def startClosing (g : Guard) : Option Guard :=
  if g.closing then none else some { g with closing := true }

-- Where a thread is: in no call, in the body of a guarded call, or in `ebpfdivert_close` before it
-- looks at the counter, asleep on `rcond` and behind the loop.
inductive Pc
  | idle
  | body
  | closer
  | asleep
  | drained
deriving DecidableEq

-- Regions under `rlock` and the release of the handle. Calls that are refused return `-EBADF`.
inductive Event
  | enter
  | enterRefused
  | leave
  | close
  | closeRefused
  | sleep
  | wake
  | drain
  | free
deriving DecidableEq

-- A call starts with its first region. The closer may also wake up for no reason.
inductive Run : Threads.Program Guard Pc Event
  | enter {g g'} (hf : g.freed = false) (he : handleEnter g = some g') : Run .enter g .idle g' .body
  | enterRefused {g} (hf : g.freed = false) (he : handleEnter g = none) :
    Run .enterRefused g .idle g .idle
  | leave {g} : Run .leave g .body (handleLeave g) .idle
  | close {g g'} (hf : g.freed = false) (hc : startClosing g = some g') :
    Run .close g .idle g' .closer
  | closeRefused {g} (hf : g.freed = false) (hc : startClosing g = none) :
    Run .closeRefused g .idle g .idle
  | sleep {g} (hi : 0 < g.inflight) : Run .sleep g .closer { g with woken := false } .asleep
  | wake {g} : Run .wake g .asleep g .closer
  | drain {g} (hi : ¬0 < g.inflight) : Run .drain g .closer g .drained
  | free {g} : Run .free g .drained { g with freed := true } .idle

abbrev State (T : Type) := Threads.Config T Guard Pc

-- A handle that has just been opened.
def opened (T : Type) : State T :=
  ⟨⟨false, 0, false, false⟩, fun _ => .idle⟩

def inBody (s : Pc) : Prop := s = .body

def inClose (s : Pc) : Prop := s = .closer ∨ s = .asleep ∨ s = .drained

instance : DecidablePred inBody := fun _ => inferInstanceAs (Decidable (_ = _))

instance : DecidablePred inClose := fun _ => inferInstanceAs (Decidable (_ ∨ _))

end Handle.Close
