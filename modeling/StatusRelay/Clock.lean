import StatusRelay.Duration

/-!
# The clock

Time is counted in nanoseconds. A timer is set for a deadline and remembers how many timers were
set before it: timers fire in the order of their deadlines, and of those due together the one set
first goes first.
-/
namespace StatusRelay

/-- When a timer is due, and its number among all timers. -/
structure Stamp where
  due : Nat
  order : Nat
  deriving DecidableEq, Repr, Inhabited

def Stamp.before (a b : Stamp) : Bool :=
  decide (a.due < b.due) || (a.due == b.due && decide (a.order < b.order))

structure Clock where
  now : Nat := 0
  /-- Timers set so far. -/
  issued : Nat := 0
  deriving DecidableEq, Repr, Inhabited

namespace Clock

/-- Sets a timer. -/
def timer (c : Clock) (delay : Duration) : Stamp × Clock :=
  (⟨c.now + delay.nanos, c.issued⟩, { c with issued := c.issued + 1 })

/-- Moves on to a later time. -/
def advanceTo (c : Clock) (time : Nat) : Clock := { c with now := max c.now time }

end Clock

/-- The stamp that comes first. -/
def firstStamp? : List Stamp → Option Stamp
  | [] => none
  | s :: rest =>
      match firstStamp? rest with
      | none => some s
      | some t => if t.before s then some t else some s

end StatusRelay
