import StatusRelay.Bucket
import StatusRelay.Table

/-!
# Rate limiters

A limiter says how long an item waits before it is tried again and counts the item's failures
until it is forgotten. The exponential limiter waits `base · 2 ^ failures`, at most `max`; a bucket
limits all items together and counts none; the largest of several limiters takes the longest of
their waits. Failures are counted in 32 bits and the exponent stops at 31.
-/
namespace StatusRelay

inductive Limiter (κ : Type) where
  | exponential (base max : Duration) (failures : Table κ Nat)
  | bucket (bucket : Bucket)
  | largest (limiters : List (Limiter κ))
  deriving Repr

instance {κ : Type} : Inhabited (Limiter κ) := ⟨.largest []⟩

namespace Limiter

/-- The highest count of failures. -/
def countMax : Nat := Nat.pow 2 32 - 1

/-- The wait after a number of failures. -/
def delayFor (base max : Duration) (failures : Nat) : Duration :=
  match base.mul? (Nat.pow 2 (min failures 31)) with
  | some d => d.min max
  | none => max

def longest : List Duration → Duration
  | [] => .zero
  | d :: rest => d.max (longest rest)

/-- The longest duration there is, which stands for any longer wait. -/
def forever : Duration := ⟨Duration.limit - 1⟩

variable {κ : Type} [DecidableEq κ]

/-- Doubling from 5 ms to 1000 s for each item, and 50 tries a second over all after the first
300. -/
def standard : Limiter κ :=
  .largest [.exponential (.ofMillis 5) (.ofSeconds 1000) {}, .bucket (.full 50.0 300)]

def failuresOf (failures : Table κ Nat) (item : κ) : Nat := (failures.get? item).getD 0

mutual

/-- The wait before the next try of an item, which counts as a failure. -/
def next (item : κ) (now : Nat) : Limiter κ → Duration × Limiter κ
  | .exponential base max failures =>
      let n := failuresOf failures item
      (delayFor base max n, .exponential base max (failures.insert item (min (n + 1) countMax)))
  | .bucket b =>
      let (wait, b) := b.reserveAt now
      (wait.getD forever, .bucket b)
  | .largest limiters =>
      let (delays, limiters) := nextAll item now limiters
      (longest delays, .largest limiters)

def nextAll (item : κ) (now : Nat) : List (Limiter κ) → List Duration × List (Limiter κ)
  | [] => ([], [])
  | l :: rest =>
      let (delay, l) := next item now l
      let (delays, rest) := nextAll item now rest
      (delay :: delays, l :: rest)

end

mutual

/-- Forgets the failures of an item. -/
def forget (item : κ) : Limiter κ → Limiter κ
  | .exponential base max failures => .exponential base max (failures.erase item)
  | .bucket b => .bucket b
  | .largest limiters => .largest (forgetAll item limiters)

def forgetAll (item : κ) : List (Limiter κ) → List (Limiter κ)
  | [] => []
  | l :: rest => forget item l :: forgetAll item rest

end

mutual

/-- The failures of an item since it was last forgotten. -/
def requeues (item : κ) : Limiter κ → Nat
  | .exponential _ _ failures => failuresOf failures item
  | .bucket _ => 0
  | .largest limiters => requeuesAll item limiters

def requeuesAll (item : κ) : List (Limiter κ) → Nat
  | [] => 0
  | l :: rest => max (requeues item l) (requeuesAll item rest)

end

end Limiter
end StatusRelay
