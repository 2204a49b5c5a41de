import StatusRelay.Duration
import StatusRelay.Json.Number

/-!
# Token buckets

A bucket starts full with `burst` tokens and refills at `rate` tokens a second, never above the
burst. Every reservation takes a token at once, and where that leaves less than none its caller
waits until the debt would be refilled. The arithmetic is that of floats, in a fixed order; a wait
is the exact value of its float, rounded to the nearest nanosecond with ties to the even one.
-/
namespace StatusRelay

structure Bucket where
  rate : Float
  burst : Float
  tokens : Float
  /-- The latest time of a reservation so far, in nanoseconds. -/
  last : Nat := 0
  deriving Repr, Inhabited

namespace Bucket

/-- The nearest float to a 64-bit word. -/
def wordToFloat (n : Nat) : Float := (UInt64.ofNat n).toFloat

def full (rate : Float) (burst : Nat) : Bucket :=
  let burst := wordToFloat burst
  ⟨rate, burst, burst, 0⟩

/-- A span in seconds: whole seconds plus the fraction. -/
def secondsOf (nanos : Nat) : Float :=
  wordToFloat (nanos / Duration.nanosPerSecond) +
    wordToFloat (nanos % Duration.nanosPerSecond) / 1000000000.0

def least (a b : Float) : Float := if a < b then a else b

/-- The nearest whole number to `num / den`, ties to the even one. -/
def roundedQuotient (num den : Nat) : Nat :=
  let down := num / den
  let rest := num % den
  if 2 * rest < den || (2 * rest == den && down % 2 == 0) then down else down + 1

/-- A positive span of seconds in whole nanoseconds, if a duration holds it. -/
def durationOfSeconds? (x : Float) : Option Duration :=
  if x < 18446744073709551616.0 then
    let b := Json.Binary.ofBits (x.toBits.toNat % Nat.pow 2 63)
    let r := Json.Ratio.scaled (b.mantissa * Duration.nanosPerSecond) b.exponent 0
    let nanos := roundedQuotient r.num r.den
    if nanos < Duration.limit then some ⟨nanos⟩ else none
  else none

/-- Takes a token at a time and says how long its caller waits; nothing where that is longer than
any duration. The token stays taken either way. -/
def reserveAt (b : Bucket) (now : Nat) : Option Duration × Bucket :=
  let elapsed := secondsOf (now - b.last)
  let tokens := least (b.tokens + elapsed * b.rate) b.burst - 1.0
  let after := { b with tokens := tokens, last := max now b.last }
  if tokens ≥ 0.0 || b.rate ≤ 0.0 then (some .zero, after)
  else (durationOfSeconds? (-tokens / b.rate), after)

end Bucket
end StatusRelay
