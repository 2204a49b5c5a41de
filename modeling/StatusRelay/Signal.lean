/-!
# Wake-up signals

Callers that find nothing to do register with a signal and wait. `notifyOne` wakes the caller that
has waited longest or, if nobody waits, leaves one permit, which the next caller to register takes
instead of waiting. `notifyAll` wakes everybody who waits and leaves no permit. A caller that gives
up after `notifyOne` had chosen it passes the wake-up on.
-/
namespace StatusRelay

/-- Tells the callers of one signal apart. -/
abbrev Ticket := Nat

structure Signal where
  permit : Bool := false
  /-- Registered callers, the longest waiting first. -/
  waiting : List Ticket := []
  /-- Callers chosen by `notifyOne` that have not resumed yet. -/
  chosen : List Ticket := []
  /-- Callers woken by `notifyAll` that have not resumed yet. -/
  released : List Ticket := []
  deriving DecidableEq, Repr, Inhabited

namespace Signal

def notifyOne (s : Signal) : Signal :=
  match s.waiting with
  | [] => { s with permit := true }
  | t :: rest => { s with waiting := rest, chosen := s.chosen ++ [t] }

def notifyAll (s : Signal) : Signal :=
  { s with waiting := [], released := s.released ++ s.waiting }

/-- Takes the permit (`true`) or registers a caller (`false`). -/
def enroll (s : Signal) (t : Ticket) : Bool × Signal :=
  if s.permit then (true, { s with permit := false })
  else (false, { s with waiting := s.waiting ++ [t] })

def isWoken (s : Signal) (t : Ticket) : Bool := s.chosen.contains t || s.released.contains t

/-- A woken caller goes on. -/
def resume (s : Signal) (t : Ticket) : Signal :=
  { s with chosen := s.chosen.erase t, released := s.released.erase t }

/-- A caller gives up, whether it was woken or not. -/
def leave (s : Signal) (t : Ticket) : Signal :=
  if s.chosen.contains t then ({ s with chosen := s.chosen.erase t } : Signal).notifyOne
  else { s with waiting := s.waiting.erase t, released := s.released.erase t }

end Signal
end StatusRelay
